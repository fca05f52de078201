import Kvgo.Raft.Recovery

/-! What the deletion of old segments leaves on disk. The decision is made from one number per
segment, the last index of its last batch with entries; the entries in memory that lie above
that number must all come from later batches. -/

namespace Kvgo

namespace MemStorage

variable {s s' : MemStorage} {first o : Nat} {ents : List Entry}

/-- What a batch of consecutive entries does to consecutive entries in memory, whether it is
taken or refused: above its first index there is nothing left but the batch. -/
structure Merges (s : MemStorage) (o : Nat) (ents : List Entry) (s' : MemStorage) : Prop where
  snap : s'.snap = s.snap
  indexed : ∃ first, IndexedFrom first s'.entries
  source : ∀ e ∈ s'.entries, e ∈ ents ∨ e ∈ s.entries ∧ e.index < o

theorem below_last (indexed : IndexedFrom first s.entries) {e : Entry} (inside : e ∈ s.entries) :
    e.index ≤ s.lastIndex := by
  obtain ⟨k, here⟩ := List.getElem?_of_mem inside
  have place := indexed k e here
  have bound := (List.getElem?_eq_some_iff.mp here).1
  unfold lastIndex
  cases last : s.entries.getLast? with
  | none =>
    rw [List.getLast?_eq_none_iff.mp last] at bound
    cases bound
  | some d =>
    have := indexed.last last
    show e.index ≤ d.index
    omega

theorem truncateAndAppend_merges (indexed : IndexedFrom first s.entries) (batch : IndexedFrom o ents)
    (some : ents ≠ []) {err : Option StorageError} (ok : s.truncateAndAppend ents = .ok (s', err)) :
    Merges s o ents s' := by
  suffices merged : (∃ first, IndexedFrom first s'.entries) ∧
      ∀ e ∈ s'.entries, e ∈ ents ∨ e ∈ s.entries ∧ e.index < o from
    ⟨truncateAndAppend_snap ok, merged.1, merged.2⟩
  cases ents with
  | nil => exact absurd rfl some
  | cons d rest =>
    have start : d.index = o := batch.head
    have low : s.lastIndex < o → ∀ e ∈ s.entries, e.index < o :=
      fun beyond e inside => Nat.lt_of_le_of_lt (below_last indexed inside) beyond
    unfold truncateAndAppend at ok
    simp only [start] at ok
    generalize (if 0 < s.snap.lastIncludedIndex then s.snap.lastIncludedIndex + 1 else 1) = expected at ok
    split at ok
    · rename_i none
      split at ok
      · cases ok
        exact ⟨⟨first, indexed⟩, by simp [none]⟩
      · cases ok
        exact ⟨⟨o, batch⟩, fun e inside => .inl inside⟩
    rename_i full
    have head : s.firstIndex = first := by
      unfold firstIndex
      cases here : s.entries with
      | nil => exact absurd here full
      | cons e _ =>
        rw [here] at indexed
        exact indexed.head
    have reach : s.lastIndex + 1 = first + s.entries.length := by
      unfold lastIndex
      cases last : s.entries.getLast? with
      | none => exact absurd (List.getLast?_eq_none_iff.mp last) full
      | some e => exact indexed.last last
    split at ok
    · rename_i next
      cases ok
      refine ⟨⟨first, indexed.append ?_⟩, fun e inside => ?_⟩
      · rw [← reach, ← next]
        exact batch
      · rcases List.mem_append.mp inside with old | new
        · exact .inr ⟨old, low (by omega) e old⟩
        · exact .inl new
    split at ok
    · cases ok
      exact ⟨⟨first, indexed⟩, fun e inside => .inr ⟨inside, low (by omega) e inside⟩⟩
    split at ok
    · cases ok
      exact ⟨⟨o, batch⟩, fun e inside => .inl inside⟩
    · split at ok
      · cases ok
      · rename_i inner short
        rw [head] at inner short ok
        cases ok
        have size : (s.entries.take (o - first)).length = o - first := by
          rw [List.length_take]
          omega
        refine ⟨⟨first, (indexed.take _).append ?_⟩, fun e inside => ?_⟩
        · rw [size, show first + (o - first) = o by omega]
          exact batch
        · rcases List.mem_append.mp inside with old | new
          · obtain ⟨k, here⟩ := List.getElem?_of_mem old
            have place := (indexed.take _) k e here
            have bound := (List.getElem?_eq_some_iff.mp here).1
            exact .inr ⟨List.mem_of_mem_take old, by omega⟩
          · exact .inl new

structure Trims (s s' : MemStorage) : Prop where
  up : s.snap.lastIncludedIndex ≤ s'.snap.lastIncludedIndex
  indexed : ∃ first, IndexedFrom first s'.entries
  source : ∀ e ∈ s'.entries, e ∈ s.entries

theorem Trims.refl (indexed : IndexedFrom first s.entries) : Trims s s :=
  ⟨Nat.le_refl _, ⟨first, indexed⟩, fun _ inside => inside⟩

theorem dropWhile_trims (indexed : IndexedFrom first s.entries) (j term : Nat)
    (above : s.snap.lastIncludedIndex ≤ j) :
    Trims s { s with entries := s.entries.dropWhile (fun e => decide (e.index ≤ j)), snap := ⟨j, term⟩ } where
  up := above
  indexed := by
    dsimp only
    rw [dropWhile_indexed indexed]
    exact ⟨_, indexed.drop _⟩
  source _ inside := (List.dropWhile_sublist _).subset inside

theorem maybeCompact_trims (indexed : IndexedFrom first s.entries) {threshold j : Nat}
    {err : Option StorageError} (ok : s.maybeCompact threshold j = .ok (s', err)) :
    s' = s ∨ s'.snap ≠ s.snap ∧ Trims s s' := by
  unfold maybeCompact at ok
  split at ok
  · cases ok
    exact .inl rfl
  rename_i above
  split at ok
  · cases ok
    exact .inl rfl
  unfold compactLocked at ok
  split at ok
  · cases ok
    exact .inl rfl
  split at ok
  · cases ok
    exact .inl rfl
  obtain ⟨found, _, ok⟩ := Outcome.bind_eq_ok.mp ok
  cases found with
  | none =>
    cases ok
    exact .inl rfl
  | some term =>
    cases ok
    refine .inr ⟨fun same => ?_, dropWhile_trims indexed j term (by omega)⟩
    rw [← same] at above
    exact above (Nat.le_refl j)

theorem applySnapshot_trims (indexed : IndexedFrom first s.entries) (snap : SnapshotMeta) :
    Trims s (s.applySnapshot snap).1 := by
  unfold applySnapshot
  split
  · exact .refl indexed
  · rename_i newer
    unfold filterRetainedEntries
    split
    · exact ⟨by dsimp only; omega, ⟨first, indexed⟩, fun _ inside => inside⟩
    · exact dropWhile_trims indexed snap.lastIncludedIndex snap.lastIncludedTerm (by omega)

end MemStorage

namespace Store

open Files MemStorage

def CoveredBy (batches : List Batch) (e : Entry) : Prop :=
  ∃ front b back, batches = front ++ b :: back ∧ e ∈ b.entries ∧
    (∀ d ∈ b.entries, d.index = e.index → d = e) ∧ ∀ b' ∈ back, ∀ d ∈ b'.entries, d.index ≠ e.index

def LiveOnDisk (st : Store) : Prop :=
  ∃ batches, readBatches st.files.dir = some batches ∧
    ∀ e ∈ st.mem.entries, st.mem.snap.lastIncludedIndex < e.index → CoveredBy batches e

def Contiguous : StoreOp → Prop
  | .save entries _ => ∀ e ∈ entries.head?, IndexedFrom e.index entries
  | _ => True

instance : DecidablePred Contiguous
  | .save entries _ => inferInstanceAs (Decidable (∀ e ∈ entries.head?, IndexedFrom e.index entries))
  | .maybeCompact _ => inferInstanceAs (Decidable True)
  | .applySnapshot _ => inferInstanceAs (Decidable True)

/-- Whatever is taken away from the front, an entry above its last index is covered by the rest. -/
structure Guarded (st : Store) : Prop where
  indexed : ∃ first, IndexedFrom first st.mem.entries
  covered : ∀ before after, st.files.batches = before ++ after → ∀ e ∈ st.mem.entries,
    st.mem.snap.lastIncludedIndex < e.index → lastOf before < e.index → CoveredBy after e

theorem CoveredBy.snoc {batches : List Batch} {e : Entry} (covered : CoveredBy batches e) {b : Batch}
    (free : ∀ d ∈ b.entries, d.index ≠ e.index) : CoveredBy (batches ++ [b]) e := by
  obtain ⟨front, c, back, rfl, inside, unique, later⟩ := covered
  refine ⟨front, c, back ++ [b], by simp, inside, unique, fun b' member => ?_⟩
  rcases List.mem_append.mp member with old | new
  · exact later b' old
  · rw [List.mem_singleton.mp new]
    exact free

theorem coveredBy_last (batches : List Batch) {b : Batch} {e : Entry} {o : Nat}
    (indexed : IndexedFrom o b.entries) (inside : e ∈ b.entries) : CoveredBy (batches ++ [b]) e := by
  refine ⟨batches, b, [], rfl, inside, fun d member same => ?_, by simp⟩
  obtain ⟨j, here⟩ := List.getElem?_of_mem member
  obtain ⟨k, there⟩ := List.getElem?_of_mem inside
  have first := indexed j d here
  have second := indexed k e there
  obtain rfl : j = k := by omega
  exact Option.some_inj.mp (here.symm.trans there)

/-- A batch is written, whether or not the entries in memory take it. -/
theorem Guarded.write {st : Store} (guarded : Guarded st) {b : Batch} {o : Nat} {mem : MemStorage}
    {files : Files} {hard : HardState} (indexed : IndexedFrom o b.entries) (some : b.entries ≠ [])
    (merges : Merges st.mem o b.entries mem) (written : files.batches = st.files.batches ++ [b]) :
    Guarded { mem, files, hard } := by
  refine ⟨merges.indexed, fun before after split e inside above beyond => ?_⟩
  change files.batches = _ at split
  change e ∈ mem.entries at inside
  change mem.snap.lastIncludedIndex < e.index at above
  rw [merges.snap] at above
  rw [written] at split
  rcases List.eq_nil_or_concat after with rfl | ⟨kept, last, rfl⟩
  · -- nothing in memory lies above the batch that was written last
    rw [List.append_nil] at split
    rw [← split, lastOf_append, segLastIdx_single] at beyond
    cases tail : b.entries.getLast? with
    | none => exact absurd (List.getLast?_eq_none_iff.mp tail) some
    | some d =>
      rw [tail] at beyond
      change d.index < e.index at beyond
      have place := indexed.last tail
      have long := List.length_pos_iff.mpr some
      rcases merges.source e inside with new | ⟨_, low⟩
      · obtain ⟨k, here⟩ := List.getElem?_of_mem new
        have := indexed k e here
        have := (List.getElem?_eq_some_iff.mp here).1
        omega
      · omega
  · rw [List.concat_eq_append, ← List.append_assoc] at split
    obtain ⟨same, single⟩ := List.append_inj' split rfl
    cases single
    rw [List.concat_eq_append]
    rcases merges.source e inside with new | ⟨old, low⟩
    · exact coveredBy_last kept indexed new
    · refine (guarded.covered before kept same e old above beyond).snoc (fun d member => ?_)
      obtain ⟨k, here⟩ := List.getElem?_of_mem member
      have := indexed k d here
      omega

/-- A batch without entries is written. -/
theorem Guarded.writeEmpty {st : Store} (guarded : Guarded st) {b : Batch} {mem : MemStorage}
    {files : Files} {hard : HardState} (none : b.entries = []) (entries : mem.entries = st.mem.entries)
    (snap : mem.snap = st.mem.snap) (written : files.batches = st.files.batches ++ [b]) :
    Guarded { mem, files, hard } := by
  refine ⟨by rw [entries]; exact guarded.indexed, fun before after split e inside above beyond => ?_⟩
  change files.batches = _ at split
  change e ∈ mem.entries at inside
  change mem.snap.lastIncludedIndex < e.index at above
  rw [entries] at inside
  rw [snap] at above
  rw [written] at split
  rcases List.eq_nil_or_concat after with rfl | ⟨kept, last, rfl⟩
  · rw [List.append_nil] at split
    rw [← split, lastOf_append, segLastIdx_single, none] at beyond
    obtain ⟨front, c, back, impossible, _⟩ :=
      guarded.covered st.files.batches [] (by simp) e inside above beyond
    simp at impossible
  · rw [List.concat_eq_append, ← List.append_assoc] at split
    obtain ⟨same, single⟩ := List.append_inj' split rfl
    cases single
    rw [List.concat_eq_append]
    exact (guarded.covered before kept same e inside above beyond).snoc (by simp [none])

theorem Guarded.trim {st : Store} (guarded : Guarded st) {mem : MemStorage} {files : Files}
    (trims : Trims st.mem mem) (same : files.batches = st.files.batches) :
    Guarded { st with mem, files } := by
  refine ⟨trims.indexed, fun before after split e inside above beyond => ?_⟩
  have up := trims.up
  exact guarded.covered before after (same ▸ split) e (trims.source e inside)
    (Nat.lt_of_le_of_lt up above) beyond

theorem Guarded.delete {st : Store} (guarded : Guarded st)
    (snapshot : st.files.snapshot = st.mem.snap) :
    Guarded { st with files := st.files.deleteOldSegments } := by
  obtain ⟨gone, split, low⟩ := st.files.deleteOldSegments_split
  rw [snapshot] at low
  refine ⟨guarded.indexed, fun before after rest e inside above beyond => ?_⟩
  change st.files.deleteOldSegments.batches = _ at rest
  refine guarded.covered (gone ++ before) after (by rw [split, rest, List.append_assoc]) e inside above ?_
  rw [lastOf_append]
  cases here : segLastIdx before with
  | none => exact Nat.lt_of_le_of_lt low above
  | some i =>
    rw [lastOf, here] at beyond
    exact beyond

theorem guarded_empty : Guarded {} :=
  ⟨⟨1, fun _ _ here => by simp at here⟩, fun _ _ _ _ inside => by cases inside⟩

theorem Guarded.save {st : Store} (guarded : Guarded st) {limit : Nat} {entries : List Entry}
    {hard : Option HardState} {mem : MemStorage} {err : Option StorageError} {held : HardState}
    (contiguous : ∀ e ∈ entries.head?, IndexedFrom e.index entries)
    (ok : st.mem.save entries hard = .ok (mem, err)) :
    Guarded { mem, files := st.files.save limit st.mem entries hard, hard := held } := by
  obtain ⟨first, indexed⟩ := guarded.indexed
  unfold MemStorage.save at ok
  unfold Files.save
  split at ok
  · rename_i nothing
    rw [if_pos nothing]
    cases ok
    exact ⟨guarded.indexed, guarded.covered⟩
  rename_i something
  rw [if_neg something]
  have written : ((st.files.write ⟨st.mem.effectiveHard hard, entries⟩).maybeCut limit).batches =
      st.files.batches ++ [⟨st.mem.effectiveHard hard, entries⟩] := by simp
  cases entries with
  | nil =>
    cases ok
    exact guarded.writeEmpty rfl rfl rfl written
  | cons e rest =>
    have merges := truncateAndAppend_merges (s := { st.mem with hd := st.mem.effectiveHard hard })
      indexed (contiguous e rfl) (by simp) ok
    exact guarded.write (contiguous e rfl) (by simp) ⟨merges.snap, merges.indexed, merges.source⟩ written

theorem Guarded.step {st : Store} (guarded : Guarded st) {limit threshold : Nat} {op : StoreOp}
    (contiguous : Contiguous op) : Guarded (st.step limit threshold op) := by
  obtain ⟨first, indexed⟩ := guarded.indexed
  unfold Store.step
  split
  swap
  · exact guarded
  rename_i st' err done
  cases op with
  | save entries hard =>
    obtain ⟨⟨mem, _⟩, saved, done⟩ := Outcome.bind_eq_ok.mp done
    cases done
    exact guarded.save contiguous saved
  | maybeCompact index =>
    obtain ⟨⟨mem, _⟩, compacted, done⟩ := Outcome.bind_eq_ok.mp done
    cases done
    unfold Files.compact
    rcases maybeCompact_trims indexed compacted with rfl | ⟨moved, trims⟩
    · rw [if_pos rfl]
      exact guarded
    · rw [if_neg moved]
      have trimmed : Guarded { st with mem, files := st.files.persistSnapshotMeta mem.snap } :=
        guarded.trim trims rfl
      exact trimmed.delete rfl
  | applySnapshot snap =>
    cases done
    exact guarded.trim (applySnapshot_trims indexed snap) rfl

/-- Deleting segments never takes an entry that is still needed: after every sequence of calls,
whether they return nil or an error, the entries above the boundary are on disk, each in the
last batch that covers its index. -/
theorem live_entries_on_disk (limit threshold : Nat) (ops : List StoreOp) (contiguous : ∀ op ∈ ops, Contiguous op)
    (readable : Runs.Along (step limit threshold) Readable {} ops) :
    LiveOnDisk (Runs.exec (step limit threshold) {} ops) := by
  obtain ⟨guarded, fit⟩ := Runs.invariant (step limit threshold) (fun st => Guarded st ∧ st.files.Fit)
    (fun st op good ok => ⟨good.1.step ok.1, fit_step good.2 ok.2⟩) ⟨guarded_empty, fit_empty⟩
    (Runs.along_and (step limit threshold) contiguous readable)
  refine ⟨_, fit.reads, fun e inside above => ?_⟩
  exact guarded.covered [] _ rfl e inside above (Nat.zero_lt_of_lt above)

/-- Three segments, of which the first two are deleted. -/
theorem truncateAndCompact_live : LiveOnDisk (Runs.exec (step 1 1) {}
    [.save [⟨1, 1, []⟩, ⟨2, 1, []⟩, ⟨3, 1, []⟩] (some ⟨1, 1, 0⟩), .save [⟨2, 2, []⟩] none,
      .save [⟨3, 2, []⟩, ⟨4, 2, []⟩] none, .save [⟨9, 2, []⟩] none, .maybeCompact 2]) :=
  live_entries_on_disk 1 1 _ (by decide +kernel) (by decide +kernel)

def unorderedBatch : List StoreOp :=
  [.save [⟨1, 1, []⟩, ⟨3, 1, []⟩, ⟨2, 1, []⟩] (some ⟨1, 1, 0⟩), .maybeCompact 2]

/-- A batch whose last entry is not its highest: the segment goes with entry 3 in it. -/
theorem unorderedBatch_deleted :
    Runs.Along (step 1 1) (fun st op => st.returnsNil 1 1 op = true ∧ st.Readable op) {} unorderedBatch ∧
    ¬ LiveOnDisk (Runs.exec (step 1 1) {} unorderedBatch) := by
  have fine : Runs.Along (step 1 1) (fun st op => st.returnsNil 1 1 op = true ∧ st.Readable op) {}
      unorderedBatch := by decide +kernel
  refine ⟨fine, fun live => ?_⟩
  have fit : (Runs.exec (step 1 1) {} unorderedBatch).files.Fit := run_fit (by decide +kernel)
  have held : (⟨3, 1, []⟩ : Entry) ∈ (Runs.exec (step 1 1) {} unorderedBatch).mem.entries := by decide +kernel
  have none : (Runs.exec (step 1 1) {} unorderedBatch).files.batches = [] := by decide +kernel
  obtain ⟨batches, read, covered⟩ := live
  rw [fit.reads, none] at read
  cases read
  obtain ⟨front, b, back, found, _⟩ := covered _ held (by decide +kernel)
  simp at found

end Store

end Kvgo

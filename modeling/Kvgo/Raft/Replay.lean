import Kvgo.Raft.Cursors
import Kvgo.Raft.Durable

/-! Opening a directory: no batch is ever missing in front of another, whatever the
boundary is by then and whichever segments are gone. -/

namespace Kvgo

namespace MemStorage

variable {s s' : MemStorage} {first : Nat}

/-- Entries that leave no gap are taken. -/
theorem Stored.append_ok (stored : Stored s first) {o : Nat} {ents : List Entry}
    (indexed : IndexedFrom o ents) (some : ents ≠ []) (low : s.snap.lastIncludedIndex < o)
    (bound : o ≤ s.lastIndex + 1) : ∃ s', s.truncateAndAppend ents = .ok (s', none) := by
  have last := stored.lastIndex
  have begins := stored.low
  cases ents with
  | nil => exact absurd rfl some
  | cons e rest =>
    have here : e.index = o := indexed.head
    unfold MemStorage.truncateAndAppend
    simp only [here]
    by_cases none : s.entries = []
    · rw [none, List.length_nil] at last
      have expected : (if 0 < s.snap.lastIncludedIndex then s.snap.lastIncludedIndex + 1 else 1) = o := by
        split <;> omega
      simp only [expected]
      rw [if_pos none, if_neg (by simp)]
      exact ⟨_, rfl⟩
    · rw [if_neg none, stored.firstIndex none]
      split
      · exact ⟨_, rfl⟩
      split
      · omega
      split
      · exact ⟨_, rfl⟩
      · rw [if_neg (by omega)]
        exact ⟨_, rfl⟩

theorem applySnapshot_last {snap : SnapshotMeta} (stored : Stored s first)
    (ok : s.applySnapshot snap = (s', none)) :
    s'.lastIndex = max s.lastIndex snap.lastIncludedIndex := by
  have before := stored.lastIndex
  have low := stored.low
  have after := (applySnapshot_spec stored ok).2.2.1.lastIndex
  unfold applySnapshot at ok
  split at ok
  · cases ok
  rename_i newer
  cases ok
  have size : (filterRetainedEntries s.entries snap.lastIncludedIndex).length =
      s.entries.length - (snap.lastIncludedIndex + 1 - first) := by
    rw [filterRetained_drop stored.indexed stored.positive, List.length_drop]
  dsimp only at after ⊢
  omega

end MemStorage

namespace Files

open MemStorage

def lastOf (batches : List Batch) : Nat := (segLastIdx batches).getD 0

theorem segLastIdx_append (before after : Segment) :
    segLastIdx (before ++ after) = (segLastIdx after).or (segLastIdx before) := by
  simp [segLastIdx, List.filterMap_append, List.getLast?_append]

theorem segLastIdx_single (b : Batch) : segLastIdx [b] = b.entries.getLast?.map Entry.index := by
  cases last : b.entries.getLast? <;> simp [segLastIdx, last]

theorem lastOf_append (before after : List Batch) :
    lastOf (before ++ after) = (segLastIdx after).getD (lastOf before) := by
  rw [lastOf, segLastIdx_append]
  cases segLastIdx after <;> rfl

/-- Whatever sits in front of the first batch that is left and wherever the boundary is by
then, as long as all that was taken away lies below it, the rest can be replayed and
reaches as far as the log in memory. Above a boundary that lies below the end of the log
in memory, it is that log. -/
def Covers (batches : List Batch) (s : MemStorage) : Prop :=
  ∀ before after, batches = before ++ after → ∀ snap : SnapshotMeta,
    s.snap.lastIncludedIndex ≤ snap.lastIncludedIndex → lastOf before ≤ snap.lastIncludedIndex →
      ∃ s', replay snap after = some s' ∧ s'.Stored (snap.lastIncludedIndex + 1) ∧
        s.lastIndex ≤ s'.lastIndex ∧ (snap.lastIncludedIndex < s.lastIndex →
          s'.lastIndex = s.lastIndex ∧ ∀ i, snap.lastIncludedIndex < i → s'.entryAt i = s.entryAt i)

theorem Covers.mono {batches : List Batch} {s s' : MemStorage} (covers : Covers batches s)
    (up : s.snap.lastIncludedIndex ≤ s'.snap.lastIncludedIndex)
    (reach : s'.lastIndex = max s.lastIndex s'.snap.lastIncludedIndex)
    (same : ∀ i, s'.snap.lastIncludedIndex < i → s'.entryAt i = s.entryAt i) : Covers batches s' := by
  intro before after split snap above gone
  obtain ⟨r, replayed, stored, far, exactly⟩ := covers before after split snap (up.trans above) gone
  have low := stored.boundary_le
  rw [replay_snap replayed] at low
  refine ⟨r, replayed, stored, by omega, fun below => ?_⟩
  obtain ⟨last, entry⟩ := exactly (by omega)
  exact ⟨by omega, fun i here => (entry i here).trans (same i (by omega)).symm⟩

theorem Covers.suffix {before after : List Batch} {s : MemStorage} (covers : Covers (before ++ after) s)
    (gone : lastOf before ≤ s.snap.lastIncludedIndex) : Covers after s := by
  intro first rest split snap above below
  refine covers (before ++ first) rest (by rw [split, List.append_assoc]) snap above ?_
  rw [lastOf_append]
  cases here : segLastIdx first with
  | none => exact gone.trans above
  | some i =>
    rw [lastOf, here] at below
    exact below

structure Takes (s : MemStorage) (o : Nat) (entries : List Entry) (s' : MemStorage) : Prop where
  snap : s'.snap = s.snap
  none : entries = [] → s'.lastIndex = s.lastIndex ∧ s'.entryAt = s.entryAt
  some : entries ≠ [] → o ≤ s.lastIndex + 1 ∧ s'.lastIndex + 1 = o + entries.length ∧
    (∀ i, s.snap.lastIncludedIndex < i → i < o → s'.entryAt i = s.entryAt i) ∧
    ∀ i, o ≤ i → s'.entryAt i = entries[i - o]?

section Snoc

variable {batches : List Batch} {b : Batch} {s s' : MemStorage} {o : Nat}

/-- All batches lie below the boundary, and so does the log in memory. -/
theorem Covers.snoc_gone (covers : Covers batches s) (indexed : IndexedFrom o b.entries)
    (takes : Takes s o b.entries s') {snap : SnapshotMeta}
    (above : s.snap.lastIncludedIndex ≤ snap.lastIncludedIndex)
    (gone : lastOf (batches ++ [b]) ≤ snap.lastIncludedIndex) : s'.lastIndex ≤ snap.lastIncludedIndex := by
  rw [lastOf_append, segLastIdx_single] at gone
  by_cases none : b.entries = []
  · rw [none] at gone
    obtain ⟨r, replayed, _, far, _⟩ := covers batches [] (by simp) snap above gone
    cases replayed
    rw [(takes.none none).1]
    exact far
  · cases tail : b.entries.getLast? with
    | none => exact absurd (List.getLast?_eq_none_iff.mp tail) none
    | some e =>
      rw [tail] at gone
      have := indexed.last tail
      have := (takes.some none).2.1
      change e.index ≤ _ at gone
      omega

/-- One more batch on a log that was replayed. -/
theorem replayBatch_takes {r : MemStorage} (indexed : IndexedFrom o b.entries) (positive : 0 < o)
    (takes : Takes s o b.entries s') (above : s.snap.lastIncludedIndex ≤ r.snap.lastIncludedIndex)
    (stored : r.Stored (r.snap.lastIncludedIndex + 1)) (far : s.lastIndex ≤ r.lastIndex) (exactly : r.snap.lastIncludedIndex < s.lastIndex →
      r.lastIndex = s.lastIndex ∧ ∀ i, r.snap.lastIncludedIndex < i → r.entryAt i = s.entryAt i) :
    ∃ r', replayBatch r b = some r' ∧ r'.Stored (r.snap.lastIncludedIndex + 1) ∧ s'.lastIndex ≤ r'.lastIndex ∧
      (r.snap.lastIncludedIndex < s'.lastIndex →
        r'.lastIndex = s'.lastIndex ∧ ∀ i, r.snap.lastIncludedIndex < i → r'.entryAt i = s'.entryAt i) := by
  have low := stored.boundary_le
  have fresh : Stored { r with hd := b.hard } (r.snap.lastIncludedIndex + 1) :=
    ⟨stored.positive, stored.low, stored.high, stored.indexed⟩
  unfold replayBatch
  rw [filterRetained_drop indexed positive]
  set retained := b.entries.drop (r.snap.lastIncludedIndex + 1 - o) with cut
  have size : retained.length = b.entries.length - (r.snap.lastIncludedIndex + 1 - o) := by
    rw [cut, List.length_drop]
  by_cases empty : retained = []
  · rw [empty]
    rw [empty, List.length_nil] at size
    refine ⟨_, rfl, fresh, ?_⟩
    show s'.lastIndex ≤ r.lastIndex ∧ (_ → r.lastIndex = _ ∧ ∀ i, _ → r.entryAt i = _)
    by_cases none : b.entries = []
    · rw [(takes.none none).1, (takes.none none).2]
      exact ⟨far, exactly⟩
    · have := (takes.some none).2.1
      have : 0 < b.entries.length := List.length_pos_iff.mpr none
      exact ⟨by omega, fun high => absurd high (by omega)⟩
  · have some : b.entries ≠ [] := by
      intro none
      rw [none] at cut
      exact empty (by rw [cut]; simp)
    obtain ⟨bound, last, below, upper⟩ := takes.some some
    have long : 0 < retained.length := List.length_pos_iff.mpr empty
    have indexed' : IndexedFrom (o + (r.snap.lastIncludedIndex + 1 - o)) retained := indexed.drop _
    obtain ⟨r', done⟩ := fresh.append_ok indexed' empty
      (by show r.snap.lastIncludedIndex < _; omega) (by show _ ≤ r.lastIndex + 1; omega)
    rw [done]
    rcases fresh.truncateAndAppend indexed' (by omega) (by show r.snap.lastIncludedIndex < _; omega) done with
      ⟨_, failed⟩ | ⟨_, _, replaced⟩
    · exact absurd rfl (failed empty)
    have reached := replaced.last
    refine ⟨r', rfl, ?_, by omega, fun _ => ⟨by omega, fun i here => ?_⟩⟩
    · rcases replaced.stored with here | here
      · exact here
      · have low' : _ ≤ r'.snap.lastIncludedIndex + 1 := here.low
        rw [replaced.snap] at low'
        dsimp only at low'
        rwa [show o + (r.snap.lastIncludedIndex + 1 - o) = r.snap.lastIncludedIndex + 1 by omega] at here
    · rcases Nat.lt_or_ge i o with under | beyond
      · -- the boundary lies below the batch, so the log in memory reaches past it
        rw [replaced.below i here (by omega), below i (by omega) under]
        exact (exactly (by omega)).2 i here
      · rw [replaced.above i (by omega), upper i beyond, cut, List.getElem?_drop]
        congr 1
        omega

/-- A batch that the log in memory took. -/
theorem Covers.snoc (covers : Covers batches s) (indexed : IndexedFrom o b.entries) (positive : 0 < o)
    (takes : Takes s o b.entries s') : Covers (batches ++ [b]) s' := by
  intro before after split snap above gone
  rw [takes.snap] at above
  rcases List.eq_nil_or_concat after with rfl | ⟨kept, last_, rfl⟩
  · rw [List.append_nil] at split
    subst split
    have low := covers.snoc_gone indexed takes above gone
    exact ⟨{ snap }, rfl, ⟨Nat.succ_pos _, Nat.le_refl _, Nat.le_refl _, fun _ _ here => by simp at here⟩, low,
      fun high => absurd high (Nat.not_lt.mpr low)⟩
  · rw [List.concat_eq_append, ← List.append_assoc] at split
    obtain ⟨rfl, single⟩ := List.append_inj' split rfl
    cases single
    obtain ⟨r, replayed, stored, far, exactly⟩ := covers before kept rfl snap above gone
    obtain rfl : r.snap = snap := replay_snap replayed
    rw [List.concat_eq_append, replay_append, replayed]
    exact replayBatch_takes indexed positive takes above stored far exactly

end Snoc

theorem covers_nil {s : MemStorage} (low : s.lastIndex ≤ s.snap.lastIncludedIndex) : Covers [] s := by
  intro before after split snap above _
  obtain ⟨rfl, rfl⟩ := List.append_eq_nil_iff.mp split.symm
  exact ⟨{ snap }, rfl, ⟨Nat.succ_pos _, Nat.le_refl _, Nat.le_refl _, fun _ _ here => by simp at here⟩,
    low.trans above, fun high => absurd high (by omega)⟩

theorem replay_hd {snap : SnapshotMeta} {batches : List Batch} {s : MemStorage}
    (ok : replay snap batches = some s) : s.hd = (batches.getLast?.map Batch.hard).getD {} := by
  rcases List.eq_nil_or_concat batches with rfl | ⟨before, b, rfl⟩
  · cases ok; rfl
  · rw [List.concat_eq_append, replay_append] at ok
    obtain ⟨s', _, last⟩ := Option.bind_eq_some_iff.mp ok
    unfold replayBatch at last
    split at last
    · rename_i s'' done
      cases last
      rw [List.concat_eq_append, List.getLast?_append]
      exact truncateAndAppend_hd (s := { s' with hd := b.hard }) done
    · cases last

structure Replays (f : Files) (s : MemStorage) : Prop where
  snapshot : f.snapshot = s.snap
  stored : ∃ first, s.Stored first
  covers : Covers f.batches s
  hard : ∀ b, f.batches.getLast? = some b → b.hard = s.hd

structure Backs (f : Files) (s : MemStorage) : Prop extends Replays f s where
  covered : isEmptyHardState (some s.hd) = true ∨ s.snap.lastIncludedIndex ≤ s.hd.committedIndex

theorem replays_empty : Replays {} {} :=
  ⟨rfl, ⟨1, stored_empty⟩, covers_nil (Nat.le_refl _), by simp [batches]⟩

theorem backs_empty : Backs {} {} := ⟨replays_empty, by decide⟩

theorem Replays.opens {f : Files} {s : MemStorage} (replays : Replays f s) :
    ∃ s', f.reopen = some s' ∧ s'.Stored (s'.snap.lastIncludedIndex + 1) ∧ s'.snap = s.snap ∧
      s'.hd = (f.batches.getLast?.map Batch.hard).getD {} ∧ s.lastIndex ≤ s'.lastIndex ∧
      (s.snap.lastIncludedIndex < s.lastIndex → s'.lastIndex = s.lastIndex ∧
        ∀ i, s.snap.lastIncludedIndex < i → s'.entryAt i = s.entryAt i) := by
  obtain ⟨s', replayed, stored, far, exactly⟩ := replays.covers [] f.batches rfl f.snapshot
    (by rw [replays.snapshot]) (Nat.zero_le _)
  have snap := replay_snap replayed
  rw [replays.snapshot] at exactly
  exact ⟨s', replayed, by rw [snap]; exact stored, snap.trans replays.snapshot, replay_hd replayed, far, exactly⟩

theorem Replays.opened_hard {f : Files} {s s' : MemStorage} (replays : Replays f s)
    (opened : s'.hd = (f.batches.getLast?.map Batch.hard).getD {}) : s'.hd = s.hd ∨ s'.hd = {} := by
  rw [opened]
  cases last : f.batches.getLast? with
  | none => exact .inr rfl
  | some b => exact .inl (replays.hard b last)

def Restartable (cfg : Config) (f : Files) : Prop :=
  ∃ s r, f.reopen = some s ∧
    Raft.newRaft { cfg with storage := s, applied := s.snap.lastIncludedIndex } = .ok r

instance (cfg : Config) (f : Files) : Decidable (Restartable cfg f) :=
  match opened : f.reopen with
  | none => .isFalse (fun ⟨_, _, here, _⟩ => by rw [opened] at here; cases here)
  | some s =>
    match made : Raft.newRaft { cfg with storage := s, applied := s.snap.lastIncludedIndex } with
    | .ok r => .isTrue ⟨s, r, opened, made⟩
    | .error _ => .isFalse (fun ⟨s', _, here, ok⟩ => by
        obtain rfl : s = s' := by rw [opened] at here; exact Option.some_inj.mp here
        rw [made] at ok
        cases ok)

theorem Backs.restartable {f : Files} {s : MemStorage} {cfg : Config} (backs : Backs f s)
    (valid : Raft.validate cfg = true) : Restartable cfg f := by
  obtain ⟨s', opened, stored, snap, hd, _⟩ := backs.opens
  have hd := backs.opened_hard hd
  have begins : s'.firstIndex = s'.snap.lastIncludedIndex + 1 ∨
      s'.firstIndex = 0 ∧ s'.snap.lastIncludedIndex = 0 := by
    by_cases none : s'.entries = []
    · by_cases zero : s'.snap.lastIncludedIndex = 0
      · exact .inr ⟨by simp [MemStorage.firstIndex, none, zero], zero⟩
      · exact .inl (by simp [MemStorage.firstIndex, none, zero])
    · exact .inl (stored.firstIndex none)
  have still : Raft.validate { cfg with storage := s', applied := s'.snap.lastIncludedIndex } = true := valid
  have committed : ¬ ((Raft.blank { cfg with storage := s', applied := s'.snap.lastIncludedIndex }).loadHardState
      s'.hd).raftLog.committed < s'.snap.lastIncludedIndex := by
    unfold Raft.loadHardState
    split
    · show ¬ s'.firstIndex - 1 < _
      omega
    · rename_i full
      show ¬ s'.hd.committedIndex < _
      rcases hd with same | lost
      · rw [same] at full
        have := backs.covered.resolve_left full
        rw [same, snap]
        omega
      · rw [lost] at full
        exact absurd rfl full
  refine ⟨s', ?_⟩
  unfold Raft.newRaft
  rw [if_neg (by rw [still]; simp)]
  simp only
  rw [if_neg committed, if_neg (by omega)]
  exact ⟨_, opened, rfl⟩

/-! The operations of the storage. -/

/-- A `Save` that returns nil. -/
theorem takes_save {s s' : MemStorage} {first o : Nat} {entries : List Entry} {hard : Option HardState}
    (stored : s.Stored first) (indexed : IndexedFrom o entries) (positive : 0 < o)
    (reach : entries ≠ [] → s.snap.lastIncludedIndex < o + entries.length)
    (ok : s.save entries hard = .ok (s', none)) :
    Takes s o entries s' ∧ (s'.Stored first ∨ entries ≠ [] ∧ s'.Stored o) := by
  have snap := MemStorage.save_snap ok
  unfold MemStorage.save at ok
  split at ok
  · rename_i nothing
    cases ok
    exact ⟨⟨rfl, fun _ => ⟨rfl, rfl⟩, fun some => absurd nothing.1 some⟩, .inl stored⟩
  · have fresh : Stored { s with hd := s.effectiveHard hard } first :=
      ⟨stored.positive, stored.low, stored.high, stored.indexed⟩
    by_cases none : entries = []
    · subst none
      cases ok
      exact ⟨⟨rfl, fun _ => ⟨rfl, rfl⟩, fun some => absurd rfl some⟩, .inl fresh⟩
    · rcases fresh.truncateAndAppend indexed positive (reach none) ok with ⟨_, failed⟩ | ⟨_, _, replaced⟩
      · exact absurd rfl (failed none)
      · exact ⟨⟨snap, fun empty => absurd empty none, fun _ =>
          ⟨replaced.bound, replaced.last, fun i above low => replaced.below i above low, replaced.above⟩⟩,
          replaced.stored.imp_right (fun here => ⟨none, here⟩)⟩

theorem Replays.save {f : Files} {s s' : MemStorage} {limit o : Nat} {entries : List Entry}
    {hard : Option HardState} (replays : Replays f s) (indexed : IndexedFrom o entries) (positive : 0 < o)
    (reach : entries ≠ [] → s.snap.lastIncludedIndex < o + entries.length)
    (ok : s.save entries hard = .ok (s', none)) : Replays (f.save limit s entries hard) s' := by
  obtain ⟨first, stored⟩ := replays.stored
  obtain ⟨takes, stored'⟩ := takes_save stored indexed positive reach ok
  have hd := MemStorage.save_hd ok
  unfold Files.save
  split
  · rename_i nothing
    unfold MemStorage.save at ok
    rw [if_pos nothing] at ok
    cases ok
    exact replays
  · refine ⟨?_, stored'.elim (fun here => ⟨_, here⟩) (fun here => ⟨_, here.2⟩), ?_, fun b last => ?_⟩
    · rw [maybeCut_snapshot, takes.snap]
      exact replays.snapshot
    · rw [maybeCut_batches, write_batches]
      exact replays.covers.snoc indexed positive takes
    · rw [maybeCut_batches, write_batches, List.getLast?_append] at last
      cases last
      exact hd.symm

theorem lastOf_flatten {segs : List Segment} {n : Nat}
    (all : ∀ seg ∈ segs, ∀ i, segLastIdx seg = some i → i ≤ n) : lastOf segs.flatten ≤ n := by
  induction segs using List.reverseRecOn with
  | nil => exact Nat.zero_le _
  | append_singleton segs seg ih =>
    rw [List.flatten_append, List.flatten_singleton, lastOf_append]
    cases last : segLastIdx seg with
    | none => exact ih (fun other inside => all other (by simp [inside]))
    | some i => exact all seg (by simp) i last

/-- What `deleteOldSegments` takes away lies at or below the boundary. -/
theorem deleteOldSegments_split (f : Files) : ∃ gone, f.batches = gone ++ f.deleteOldSegments.batches ∧
    lastOf gone ≤ f.snapshot.lastIncludedIndex := by
  obtain ⟨old, kept, low⟩ : ∃ old : Segment → Bool,
      f.deleteOldSegments = { f with sealed := f.sealed.dropWhile old } ∧
        ∀ seg, old seg = true → ∀ i, segLastIdx seg = some i → i ≤ f.snapshot.lastIncludedIndex := by
    refine ⟨_, rfl, fun seg passed i last => ?_⟩
    rw [last] at passed
    simpa using passed
  refine ⟨(f.sealed.takeWhile old).flatten, ?_, lastOf_flatten ?_⟩
  · rw [kept]
    unfold batches
    rw [← List.append_assoc, ← List.flatten_append, List.takeWhile_append_dropWhile]
  · intro seg inside i last
    exact low seg (List.mem_takeWhile_imp inside) i last

theorem Replays.move {f : Files} {s s' : MemStorage} (replays : Replays f s) (hd : s'.hd = s.hd)
    (stored : ∃ first, s'.Stored first)
    (up : s.snap.lastIncludedIndex ≤ s'.snap.lastIncludedIndex)
    (last : s'.lastIndex = max s.lastIndex s'.snap.lastIncludedIndex)
    (same : ∀ i, s'.snap.lastIncludedIndex < i → s'.entryAt i = s.entryAt i) :
    Replays (f.persistSnapshotMeta s'.snap) s' where
  snapshot := rfl
  stored := stored
  covers := replays.covers.mono up last same
  hard b here := (replays.hard b here).trans hd.symm

theorem Replays.delete {f : Files} {s : MemStorage} (replays : Replays f s) :
    Replays f.deleteOldSegments s := by
  obtain ⟨gone, split, low⟩ := f.deleteOldSegments_split
  have covers := replays.covers
  rw [split] at covers
  refine ⟨replays.snapshot, replays.stored, covers.suffix (by rw [← replays.snapshot]; exact low),
    fun b last => replays.hard b ?_⟩
  rw [split, List.getLast?_append, last]
  rfl

theorem Replays.compact {f : Files} {s s' : MemStorage} {threshold index : Nat} {err : Option StorageError}
    (replays : Replays f s) (ok : s.maybeCompact threshold index = .ok (s', err)) :
    Replays (f.compact s s') s' ∧ s'.hd = s.hd := by
  obtain ⟨first, stored⟩ := replays.stored
  unfold Files.compact
  rcases stored.maybeCompact ok with rfl | compacted
  · rw [if_pos rfl]
    exact ⟨replays, rfl⟩
  · have snap := compacted.snap
    have moved := compacted.moved
    have reached := compacted.reached
    have last := compacted.last
    have other : s'.snap ≠ s.snap := by
      intro same
      rw [same] at snap
      omega
    rw [if_neg other]
    refine ⟨(replays.move compacted.hd ⟨_, compacted.stored⟩ (by omega) (by omega) fun i here => ?_).delete,
      compacted.hd⟩
    exact compacted.above i (by omega)

theorem Replays.applySnapshot {f : Files} {s s' : MemStorage} {snap : SnapshotMeta} (replays : Replays f s)
    (ok : s.applySnapshot snap = (s', none)) : Replays (f.persistSnapshotMeta s'.snap) s' := by
  obtain ⟨first, stored⟩ := replays.stored
  obtain ⟨same, hd, new, above⟩ := MemStorage.applySnapshot_spec stored ok
  have last := MemStorage.applySnapshot_last stored ok
  have low := stored.low
  refine replays.move hd ⟨_, new⟩ (by rw [same]; omega) (by rw [same, last]) (fun i here => ?_)
  rw [same] at here
  refine stored.drop_entryAt new (by omega) ?_ here
  unfold MemStorage.applySnapshot at ok
  split at ok
  · cases ok
  · cases ok
    exact filterRetained_drop stored.indexed stored.positive _

theorem Backs.reopened {f : Files} {s s' : MemStorage} (backs : Backs f s) (opened : f.reopen = some s')
    (same : s'.lastIndex = s.lastIndex) : Backs f s' := by
  obtain ⟨s'', again, stored, snap, hd, _, exactly⟩ := backs.opens
  obtain rfl : s' = s'' := by rw [opened] at again; exact Option.some_inj.mp again
  refine ⟨⟨backs.snapshot.trans snap.symm, ⟨_, stored⟩, ?_, fun b last => ?_⟩, ?_⟩
  · intro before after split boundary above gone
    rw [snap] at above
    obtain ⟨r, replayed, stored', far, exactly'⟩ := backs.covers before after split boundary above gone
    refine ⟨r, replayed, stored', by omega, fun below => ?_⟩
    obtain ⟨last, entry⟩ := exactly' (by omega)
    exact ⟨by omega, fun i here => (entry i here).trans ((exactly (by omega)).2 i (by omega)).symm⟩
  · rw [hd, last]
    rfl
  · rw [snap]
    rcases backs.opened_hard hd with hd | hd
    · rw [hd]
      exact backs.covered
    · rw [hd]
      exact .inl rfl

end Files

end Kvgo

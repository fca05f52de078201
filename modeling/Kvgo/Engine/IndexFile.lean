import Kvgo.Engine.ReadBack

/-! Opening a shard whose index file ends in a torn record: the loop of `readIndex` truncates the file there,
and `replay` passes its error on. -/

namespace Kvgo

open Words Slices

namespace Engine

theorem flushAll_words {batches : List (List WriteRequest)} {s s' : Shard}
    (words : ∀ ie ∈ s.indexFile, ie.valueSize < 2 ^ 32 ∧ ie.valueOffset < 2 ^ 64)
    (flushed : flushAll s batches = some s') :
    ∀ ie ∈ s'.indexFile, ie.valueSize < 2 ^ 32 ∧ ie.valueOffset < 2 ^ 64 :=
  flushAll_records words (fun offset batch _ => encodeBatch_words offset batch) flushed

/-- What opening is to make of an index file with these whole records: it replays them, leaves a file
that holds nothing else, and what is appended to that file later is replayed behind them. -/
def Recovers (index values : Bytes) (whole : List IndexEntry) : Prop :=
  openShard index values = (some (Shard.reopen whole values), indexBytes whole) ∧
    ∀ more, (∀ ie ∈ more, Fits ie) → ∀ values', openShard (indexBytes whole ++ indexBytes more) values' =
      (some (Shard.reopen (whole ++ more) values'), indexBytes whole ++ indexBytes more)

/-- A torn end is cut off, but the shard opens only if there was none. -/
theorem torn_index_opens_iff (batches : List (List WriteRequest)) (s s' : Shard) (last : List WriteRequest)
    (flushed : flushAll {} batches = some s) (final : s.flush last = some s') (cut : Nat)
    (inside : cut ≤ (indexBytes (Shard.encodeBatch s.valueOffset last)).length) :
    Recovers (indexBytes s.indexFile ++ (indexBytes (Shard.encodeBatch s.valueOffset last)).take cut)
        s'.valueFile (s.indexFile ++ complete (Shard.encodeBatch s.valueOffset last) cut) ↔
      (∃ k, cut = (indexBytes ((Shard.encodeBatch s.valueOffset last).take k)).length) ∧
        ∀ ie ∈ s.indexFile ++ complete (Shard.encodeBatch s.valueOffset last) cut,
          ie.key.length < 2 ^ 32 := by
  have words : ∀ ie ∈ s'.indexFile, ie.valueSize < 2 ^ 32 ∧ ie.valueOffset < 2 ^ 64 := by
    intro ie here
    rw [(Shard.flush_eq_some final).index] at here
    rcases List.mem_append.mp here with old | new
    · exact flushAll_words (s := {}) (by simp) flushed ie old
    · exact encodeBatch_words _ _ ie new
  rw [(Shard.flush_eq_some final).index] at words
  generalize Shard.encodeBatch s.valueOffset last = new at inside words ⊢
  constructor
  · rintro ⟨opened, -⟩
    obtain ⟨same, read⟩ := openShard_some opened
    rw [indexBytes_append] at same
    have whole := List.append_cancel_left same
    refine ⟨⟨(complete new cut).length, ?_⟩, fun ie here => ?_⟩
    · have front := List.prefix_iff_eq_take.mp (complete_isPrefix new cut)
      rw [← front, whole, List.length_take, Nat.min_eq_left inside]
    · rw [(Shard.reopen_replayed _ _).index] at read
      exact (readIndex_words _ ie (read ▸ here)).1
  · rintro ⟨⟨k, rfl⟩, keys⟩
    rw [complete_length] at keys ⊢
    have fits : ∀ ie ∈ s.indexFile ++ new.take k, Fits ie := by
      intro ie here
      have word := words ie (by
        rcases List.mem_append.mp here with old | taken
        · exact List.mem_append_left _ old
        · exact List.mem_append_right _ (List.mem_of_mem_take taken))
      exact ⟨keys ie here, word.1, word.2⟩
    have bytes : (indexBytes new).take (indexBytes (new.take k)).length = indexBytes (new.take k) := by
      have halves : indexBytes new = indexBytes (new.take k) ++ indexBytes (new.drop k) := by
        rw [← indexBytes_append, List.take_append_drop]
      rw [halves, List.take_left]
    rw [bytes, ← indexBytes_append]
    refine ⟨openShard_indexBytes fits _, fun more later values' => ?_⟩
    rw [← indexBytes_append]
    apply openShard_indexBytes
    intro ie here
    rcases List.mem_append.mp here with old | added
    · exact fits ie old
    · exact later ie added

/-- The cut falls between the two records of the last batch. -/
theorem torn_index_between_records : ∃ s s' : Shard, flushAll {} [[⟨[97], [1], true⟩]] = some s ∧
    s.flush [⟨[98], [2], true⟩, ⟨[97], [3], true⟩] = some s' ∧
    Recovers (indexBytes s.indexFile ++ (indexBytes (Shard.encodeBatch s.valueOffset
        [⟨[98], [2], true⟩, ⟨[97], [3], true⟩])).take 17) s'.valueFile
      (s.indexFile ++ complete (Shard.encodeBatch s.valueOffset
        [⟨[98], [2], true⟩, ⟨[97], [3], true⟩]) 17) :=
  ⟨_, _, rfl, rfl, (torn_index_opens_iff [[⟨[97], [1], true⟩]] _ _ [⟨[98], [2], true⟩, ⟨[97], [3], true⟩]
    rfl rfl 17 (by decide +kernel)).mpr ⟨⟨1, by decide +kernel⟩, by decide +kernel⟩⟩

theorem not_recovers_of_isNone {index values : Bytes} (closed : (openShard index values).1.isNone)
    (whole : List IndexEntry) : ¬Recovers index values whole := by
  rintro ⟨opened, -⟩
  rw [opened] at closed
  cases closed

/-- The cut falls into the header of the last record: the file is truncated in front of it, but the
shard does not open. -/
theorem torn_index_does_not_open : ∃ s s' : Shard, flushAll {} [[⟨[97], [1], true⟩]] = some s ∧
    s.flush [⟨[98], [2], true⟩] = some s' ∧
    (openShard (indexBytes s.indexFile ++ (indexBytes (Shard.encodeBatch s.valueOffset
      [⟨[98], [2], true⟩])).take 5) s'.valueFile).2 = indexBytes s.indexFile ∧
    ¬Recovers (indexBytes s.indexFile ++ (indexBytes (Shard.encodeBatch s.valueOffset
        [⟨[98], [2], true⟩])).take 5) s'.valueFile
      (s.indexFile ++ complete (Shard.encodeBatch s.valueOffset [⟨[98], [2], true⟩]) 5) :=
  ⟨_, _, rfl, rfl, by decide +kernel, not_recovers_of_isNone (by decide +kernel) _⟩

end Engine

end Kvgo

import Kvgo.Raft.Recovery

/-! What the slice of entries in memory stands for, after any sequence of storage operations
that return nil. -/

namespace Kvgo

namespace MemStorage

/-- A list that holds the stored entries `lo..hi-1` in order. -/
structure Holds (s : MemStorage) (lo hi : Nat) (ents : List Entry) : Prop where
  length : ents.length = hi - lo
  entry : ∀ k e, ents[k]? = some e → e ∈ s.entries ∧ e.index = lo + k

/-- The entries follow the snapshot boundary one by one, and `Entries` and `Term` read them
under their indices. The empty range of a storage that never held anything is left out. -/
structure Represented (s : MemStorage) : Prop where
  entries : ∀ k e, s.entries[k]? = some e → e.index = s.snap.lastIncludedIndex + 1 + k
  range : ∀ lo hi, s.snap.lastIncludedIndex < lo → lo ≤ hi → hi ≤ s.lastIndex + 1 →
    lo < hi ∨ 0 < s.lastIndex → ∃ ents, s.getEntries lo hi = .ok (some ents) ∧ s.Holds lo hi ents
  total : ∀ i, ∃ term, s.getTerm i = .ok term
  agree : ∀ i, i ≠ s.snap.lastIncludedIndex →
    (∃ e, s.getEntries i (i + 1) = .ok (some [e]) ∧ s.getTerm i = .ok (some e.term)) ∨
      s.getEntries i (i + 1) = .ok none ∧ s.getTerm i = .ok none

section Stored

variable {s : MemStorage} (stored : Stored s (s.snap.lastIncludedIndex + 1))

include stored

theorem Stored.range {lo hi : Nat} (above : s.snap.lastIncludedIndex < lo) (order : lo ≤ hi)
    (bound : hi ≤ s.lastIndex + 1) (used : lo < hi ∨ 0 < s.lastIndex) :
    ∃ ents, s.getEntries lo hi = .ok (some ents) ∧ s.Holds lo hi ents := by
  have last := stored.lastIndex
  rcases Nat.lt_or_eq_of_le order with less | rfl
  · refine ⟨_, stored.getEntries above less bound, ?_, ?_⟩
    · rw [List.length_drop, List.length_take]
      omega
    · intro k e here
      rw [List.getElem?_drop, List.getElem?_take] at here
      split at here
      · have place := stored.indexed _ e here
        exact ⟨List.mem_of_getElem? here, by omega⟩
      · cases here
  · -- the empty range
    refine ⟨[], ?_, by simp, by simp⟩
    have first : s.firstIndex = s.snap.lastIncludedIndex + 1 := by
      by_cases none : s.entries = []
      · rw [none, List.length_nil] at last
        rw [MemStorage.firstIndex, none]
        exact if_neg (by omega)
      · exact stored.firstIndex none
    have reach : lo ≤ (if s.entries = [] then s.firstIndex else s.lastIndex + 1) := by
      split
      · rename_i none
        rw [none, List.length_nil] at last
        omega
      · omega
    unfold MemStorage.getEntries
    dsimp only
    rw [if_neg (by omega), if_neg (by omega), if_neg (by omega), if_pos rfl]

theorem Stored.getTerm_above {i : Nat} (above : s.snap.lastIncludedIndex < i) (bound : i ≤ s.lastIndex) :
    ∃ e, s.entries[i - (s.snap.lastIncludedIndex + 1)]? = some e ∧ s.getTerm i = .ok (some e.term) := by
  have last := stored.lastIndex
  have inside : i - (s.snap.lastIncludedIndex + 1) < s.entries.length := by omega
  have some : s.entries ≠ [] := by
    intro none
    rw [none, List.length_nil] at inside
    omega
  have here : s.entries[i - (s.snap.lastIncludedIndex + 1)]? = Option.some (s.entries[i - (s.snap.lastIncludedIndex + 1)]) :=
    List.getElem?_eq_getElem inside
  refine ⟨_, here, ?_⟩
  unfold MemStorage.getTerm
  rw [if_neg (by omega), if_neg (by omega), if_neg (by omega), stored.firstIndex some, if_neg (by omega), here]

theorem Stored.getTerm_outside {i : Nat} (outside : i < s.snap.lastIncludedIndex ∨ s.lastIndex < i) :
    s.getTerm i = .ok none := by
  unfold MemStorage.getTerm
  rcases outside with low | high
  · rw [if_pos low]
  · have := stored.boundary_le
    rw [if_neg (by omega), if_pos high]

theorem Stored.getEntries_outside {i : Nat} (outside : i < s.snap.lastIncludedIndex ∨ s.lastIndex < i) :
    s.getEntries i (i + 1) = .ok none := by
  have last := stored.lastIndex
  unfold MemStorage.getEntries
  rw [if_neg (by omega)]
  rcases outside with low | high
  · rw [if_pos (by omega)]
  · have boundary := stored.boundary_le
    rw [if_neg (by omega)]
    have reach : (if s.entries = [] then s.firstIndex else s.lastIndex + 1) ≤ s.lastIndex + 1 := by
      split
      · rename_i none
        rw [MemStorage.firstIndex, none]
        simp only
        split <;> omega
      · exact Nat.le_refl _
    exact if_pos (.inr (by omega))

theorem Stored.represented : Represented s where
  entries := stored.indexed
  range _ _ above order bound used := stored.range above order bound used
  total i := by
    rcases Nat.lt_trichotomy i s.snap.lastIncludedIndex with low | rfl | above
    · exact ⟨_, stored.getTerm_outside (.inl low)⟩
    · refine ⟨some s.snap.lastIncludedTerm, ?_⟩
      have := stored.boundary_le
      unfold MemStorage.getTerm
      rw [if_neg (by omega), if_neg (by omega), if_pos rfl]
    · rcases Nat.lt_or_ge s.lastIndex i with high | bound
      · exact ⟨_, stored.getTerm_outside (.inr high)⟩
      · obtain ⟨e, _, term⟩ := stored.getTerm_above above bound
        exact ⟨_, term⟩
  agree i other := by
    by_cases outside : i < s.snap.lastIncludedIndex ∨ s.lastIndex < i
    · exact .inr ⟨stored.getEntries_outside outside, stored.getTerm_outside outside⟩
    · obtain ⟨e, here, term⟩ := stored.getTerm_above (i := i) (by omega) (by omega)
      refine .inl ⟨e, ?_, term⟩
      rw [stored.getEntries (by omega) (Nat.lt_succ_self i) (by omega)]
      have inside := (List.getElem?_eq_some_iff.mp here).1
      have one : (s.entries.take (i + 1 - (s.snap.lastIncludedIndex + 1))).drop
          (i - (s.snap.lastIncludedIndex + 1)) = [e] := by
        rw [show i + 1 - (s.snap.lastIncludedIndex + 1) = i - (s.snap.lastIncludedIndex + 1) + 1 by omega,
          List.take_add_one, here, List.drop_append_of_le_length (by rw [List.length_take]; omega),
          List.drop_eq_nil_of_le (by rw [List.length_take]; omega)]
        rfl
      rw [one]

end Stored

end MemStorage

namespace Store

/-- The slice in memory is as the readers take it, as long as every saved batch starts above
the snapshot boundary. -/
theorem storage_represented (limit threshold : Nat) (ops : List StoreOp)
    (proper : Runs.Along (step limit threshold) (Proper limit threshold) {} ops) :
    (Runs.exec (step limit threshold) {} ops).mem.Represented :=
  (run_consistent proper).stored.represented

theorem overlap_represented : (Runs.exec (step 1000 1) {}
    [.save [⟨1, 1, []⟩, ⟨2, 1, []⟩, ⟨3, 1, []⟩] (some ⟨1, 1, 0⟩), .applySnapshot ⟨2, 1⟩,
      .save [⟨3, 2, []⟩, ⟨4, 2, []⟩] none]).mem.Represented :=
  storage_represented 1000 1 _ (by decide +kernel)

/-- A snapshot is installed between a `Ready` and its `Save`: the batch that starts at the
boundary replaces the entry behind it, and the storage ends at its own boundary with the
compacted index in memory. -/
theorem saveAtBoundary_misplaced :
    (Runs.Along (step 1000 1) (fun st op => st.returnsNil 1000 1 op = true) {}
      [.save [⟨1, 1, []⟩, ⟨2, 1, []⟩, ⟨3, 1, []⟩] (some ⟨1, 1, 0⟩), .applySnapshot ⟨2, 1⟩,
        .save [⟨2, 2, []⟩] none]) ∧
    (Runs.exec (step 1000 1) {}
      [.save [⟨1, 1, []⟩, ⟨2, 1, []⟩, ⟨3, 1, []⟩] (some ⟨1, 1, 0⟩), .applySnapshot ⟨2, 1⟩,
        .save [⟨2, 2, []⟩] none]).mem.entries = [⟨2, 2, []⟩] ∧
    ¬ (Runs.exec (step 1000 1) {}
      [.save [⟨1, 1, []⟩, ⟨2, 1, []⟩, ⟨3, 1, []⟩] (some ⟨1, 1, 0⟩), .applySnapshot ⟨2, 1⟩,
        .save [⟨2, 2, []⟩] none]).mem.Represented := by
  refine ⟨by decide +kernel, by decide +kernel, fun represented => ?_⟩
  have first := represented.entries 0 ⟨2, 2, []⟩ (by decide +kernel)
  exact absurd first (by decide +kernel)

end Store

end Kvgo

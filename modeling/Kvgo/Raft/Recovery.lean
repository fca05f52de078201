import Kvgo.Raft.Directory
import Kvgo.Raft.Replay

/-! What a `DurableStorage` finds when its directory is opened again, after any sequence of
its own operations. -/

namespace Kvgo

structure Store where
  mem : MemStorage := {}
  files : Files := {}
  /-- The hard state that the last `Save` wrote. -/
  hard : HardState := {}

inductive StoreOp where
  | save (entries : List Entry) (hard : Option HardState)
  | maybeCompact (index : Nat)
  | applySnapshot (snap : SnapshotMeta)

namespace Store

open Files MemStorage

def apply (limit threshold : Nat) (st : Store) : StoreOp → Except Panic (Store × Option StorageError)
  | .save entries hard => do
    let (mem, err) ← st.mem.save entries hard
    .ok ({
      mem
      files := st.files.save limit st.mem entries hard
      hard := if entries = [] ∧ isEmptyHardState hard then st.hard else st.mem.effectiveHard hard }, err)
  | .maybeCompact index => do
    let (mem, err) ← st.mem.maybeCompact threshold index
    .ok ({ st with mem, files := st.files.compact st.mem mem }, err)
  | .applySnapshot snap =>
    let (mem, err) := st.mem.applySnapshot snap
    .ok ({ st with mem, files := st.files.persistSnapshotMeta mem.snap }, err)

def step (limit threshold : Nat) (st : Store) (op : StoreOp) : Store :=
  match st.apply limit threshold op with
  | .ok (st', _) => st'
  | .error _ => st

def returnsNil (limit threshold : Nat) (st : Store) (op : StoreOp) : Bool :=
  match st.apply limit threshold op with
  | .ok (_, none) => true
  | _ => false

/-- The length of a saved batch fits the header of its frame, and the number of the next
segment has eight digits. -/
def Readable (st : Store) : StoreOp → Prop
  | .save entries hard => (⟨st.mem.effectiveHard hard, entries⟩ : Batch).Encodable ∧ st.files.seq + 1 < 10 ^ 8
  | _ => True

instance (st : Store) (op : StoreOp) : Decidable (st.Readable op) := by
  unfold Readable
  cases op <;> infer_instance

/-- The operation returns nil, and a saved batch holds consecutive entries from above the
snapshot boundary on. -/
def Proper (limit threshold : Nat) (st : Store) (op : StoreOp) : Prop :=
  st.returnsNil limit threshold op = true ∧
    match op with
    | .save entries _ => ∀ e ∈ entries.head?, st.mem.snap.lastIncludedIndex < e.index ∧ IndexedFrom e.index entries
    | _ => True

instance (limit threshold : Nat) (st : Store) (op : StoreOp) : Decidable (Proper limit threshold st op) := by
  unfold Proper
  cases op <;> infer_instance

/-- The files replay to the storage in memory, which starts right behind its boundary. -/
structure Consistent (st : Store) : Prop where
  replays : st.files.Replays st.mem
  stored : st.mem.Stored (st.mem.snap.lastIncludedIndex + 1)
  hard : st.mem.hd = st.hard

/-- Whatever an operation returns, the files read back. -/
theorem fit_step {st : Store} {limit threshold : Nat} {op : StoreOp} (fit : st.files.Fit) (readable : st.Readable op) :
    (st.step limit threshold op).files.Fit := by
  unfold Store.step
  split
  · rename_i st' err done
    cases op with
    | save entries hard =>
      obtain ⟨⟨mem, _⟩, -, done⟩ := Outcome.bind_eq_ok.mp done
      cases done
      exact fit.save readable.1 readable.2
    | maybeCompact index =>
      obtain ⟨⟨mem, _⟩, -, done⟩ := Outcome.bind_eq_ok.mp done
      cases done
      exact fit.compact _ _
    | applySnapshot snap =>
      cases done
      exact ⟨fit.encodable, fit.few, fit.count⟩
  · exact fit

theorem Consistent.save {st : Store} {limit : Nat} {entries : List Entry} {hard : Option HardState}
    {mem : MemStorage} (consistent : Consistent st)
    (proper : ∀ e ∈ entries.head?, st.mem.snap.lastIncludedIndex < e.index ∧ IndexedFrom e.index entries)
    (ok : st.mem.save entries hard = .ok (mem, none)) : Consistent {
      mem
      files := st.files.save limit st.mem entries hard
      hard := if entries = [] ∧ isEmptyHardState hard then st.hard else st.mem.effectiveHard hard } := by
  obtain ⟨o, positive, indexed, above⟩ : ∃ o, 0 < o ∧ IndexedFrom o entries ∧
      (entries ≠ [] → st.mem.snap.lastIncludedIndex < o) := by
    cases entries with
    | nil => exact ⟨1, Nat.one_pos, fun _ _ here => by simp at here, fun some => absurd rfl some⟩
    | cons e rest =>
      obtain ⟨above, indexed⟩ := proper e rfl
      exact ⟨e.index, Nat.zero_lt_of_lt above, indexed, fun _ => above⟩
  have reach : entries ≠ [] → st.mem.snap.lastIncludedIndex < o + entries.length :=
    fun some => Nat.lt_of_lt_of_le (above some) (Nat.le_add_right _ _)
  obtain ⟨takes, stored⟩ := takes_save consistent.stored indexed positive reach ok
  refine ⟨consistent.replays.save indexed positive reach ok, ?_, ?_⟩
  · show mem.Stored (mem.snap.lastIncludedIndex + 1)
    rw [takes.snap]
    rcases stored with stored | ⟨some, stored⟩
    · exact stored
    · -- a batch that replaces everything starts right behind the boundary
      have low := stored.low
      rw [takes.snap] at low
      have above := above some
      rwa [show st.mem.snap.lastIncludedIndex + 1 = o by omega]
  · show mem.hd = _
    rw [MemStorage.save_hd ok]
    split
    · rename_i nothing
      rw [MemStorage.effectiveHard, if_pos nothing.2]
      exact consistent.hard
    · rfl

theorem returnsNil_spec {limit threshold : Nat} {st : Store} {op : StoreOp}
    (returned : st.returnsNil limit threshold op = true) :
    ∃ st', st.apply limit threshold op = .ok (st', none) ∧ st.step limit threshold op = st' := by
  unfold returnsNil at returned
  split at returned
  · rename_i st' done
    exact ⟨st', done, by rw [Store.step, done]⟩
  · cases returned

theorem Consistent.step {st : Store} {limit threshold : Nat} {op : StoreOp} (consistent : Consistent st)
    (proper : Proper limit threshold st op) : Consistent (st.step limit threshold op) := by
  obtain ⟨returned, proper⟩ := proper
  obtain ⟨st', done, same⟩ := returnsNil_spec returned
  rw [same]
  cases op with
  | save entries hard =>
    obtain ⟨⟨mem, err⟩, saved, done⟩ := Outcome.bind_eq_ok.mp done
    cases done
    exact consistent.save proper saved
  | maybeCompact index =>
    obtain ⟨⟨mem, err⟩, compacted, done⟩ := Outcome.bind_eq_ok.mp done
    cases done
    obtain ⟨replays, hd⟩ := consistent.replays.compact compacted
    refine ⟨replays, ?_, hd.trans consistent.hard⟩
    show mem.Stored (mem.snap.lastIncludedIndex + 1)
    rcases consistent.stored.maybeCompact compacted with rfl | compacted
    · exact consistent.stored
    · rw [compacted.snap]
      exact compacted.stored
  | applySnapshot snap =>
    cases applied : st.mem.applySnapshot snap with
    | mk mem err =>
      simp only [Store.apply, applied] at done
      cases done
      obtain ⟨moved, hd, new, _⟩ := MemStorage.applySnapshot_spec consistent.stored applied
      refine ⟨consistent.replays.applySnapshot applied, ?_, hd.trans consistent.hard⟩
      show mem.Stored (mem.snap.lastIncludedIndex + 1)
      rw [moved]
      exact new

theorem consistent_empty : Consistent {} := ⟨replays_empty, stored_empty, rfl⟩

theorem run_consistent {limit threshold : Nat} {ops : List StoreOp}
    (proper : Runs.Along (step limit threshold) (Proper limit threshold) {} ops) :
    Consistent (Runs.exec (step limit threshold) {} ops) :=
  Runs.invariant (step limit threshold) Consistent (fun _ _ consistent proper => consistent.step proper)
    consistent_empty proper

theorem run_fit {limit threshold : Nat} {ops : List StoreOp}
    (readable : Runs.Along (step limit threshold) Readable {} ops) :
    (Runs.exec (step limit threshold) {} ops).files.Fit :=
  Runs.invariant (step limit threshold) (fun st => st.files.Fit) (fun _ _ fit readable => fit_step fit readable)
    fit_empty readable

/-! The log. -/

def LogRecovered (st : Store) : Prop :=
  ∃ s, openDirectory st.files.dir st.files.snapshot = some s ∧ s.snap = st.mem.snap ∧ s.entries = st.mem.entries

def HardRecovered (st : Store) : Prop :=
  ∃ s, openDirectory st.files.dir st.files.snapshot = some s ∧ s.hd = st.hard

end Store

end Kvgo

import Kvgo.Engine.Compaction

/-! Reads and the value file. A read that comes up short truncates the file at the offset of the
value; the value at offset zero is read wherever the position stands, so what is left there
decides whether the file survives. -/

namespace Kvgo

namespace Engine

namespace Shard

/-- `forEach` over the keys in the order of the map; `fn` sees all pairs it was called with so far. -/
def forEach (s : Shard) (fn : List (Bytes × Bytes) → Bool) (seen : List (Bytes × Bytes)) :
    List Bytes → Except ReadError Unit × Shard
  | [] => (.ok (), s)
  | key :: rest =>
    match s.data key with
    | none => s.forEach fn seen rest
    | some ve =>
      match s.getValue key ve with
      | (.error e, s) => (.error e, s)
      | (.ok val, s) =>
        if fn (seen ++ [(key, val)]) then s.forEach fn (seen ++ [(key, val)]) rest else (.ok (), s)

/-- Each load of a `forEach` meets the condition in the state it finds. -/
def EachWhole (s : Shard) (fn : List (Bytes × Bytes) → Bool) (seen : List (Bytes × Bytes)) :
    List Bytes → Prop
  | [] => True
  | key :: rest =>
    match s.data key with
    | none => s.EachWhole fn seen rest
    | some ve => s.Whole ve ∧
      match s.getValue key ve with
      | (.error _, _) => True
      | (.ok val, s) =>
        if fn (seen ++ [(key, val)]) then s.EachWhole fn (seen ++ [(key, val)]) rest else True

def decidableEachWhole (fn : List (Bytes × Bytes) → Bool) :
    (order : List Bytes) → (s : Shard) → (seen : List (Bytes × Bytes)) → Decidable (s.EachWhole fn seen order)
  | [], _, _ => .isTrue trivial
  | key :: rest, s, seen =>
    match found : s.data key with
    | none =>
      have := decidableEachWhole fn rest s seen
      decidable_of_iff (s.EachWhole fn seen rest) (by simp [EachWhole, found])
    | some ve =>
      match load : s.getValue key ve with
      | (.error _, _) => decidable_of_iff (s.Whole ve) (by simp [EachWhole, found, load])
      | (.ok val, s') =>
        if more : fn (seen ++ [(key, val)]) then
          have := decidableEachWhole fn rest s' (seen ++ [(key, val)])
          decidable_of_iff (s.Whole ve ∧ s'.EachWhole fn (seen ++ [(key, val)]) rest)
            (by simp [EachWhole, found, load, more])
        else decidable_of_iff (s.Whole ve) (by simp [EachWhole, found, load, more])

end Shard

inductive ReadCall where
  | get (key : Bytes)
  | forEach (order : List Bytes) (fn : List (Bytes × Bytes) → Bool)

def Shard.read (s : Shard) : ReadCall → Shard
  | .get key => (s.get key).2
  | .forEach order fn => (s.forEach fn [] order).2

def Shard.ReadsWhole (s : Shard) : ReadCall → Prop
  | .get key => ∀ ve ∈ s.data key, s.Whole ve
  | .forEach order fn => s.EachWhole fn [] order

instance (s : Shard) : (call : ReadCall) → Decidable (s.ReadsWhole call)
  | .get key => inferInstanceAs (Decidable (∀ ve ∈ s.data key, s.Whole ve))
  | .forEach order fn => Shard.decidableEachWhole fn order s []

def Stored (file : Bytes) (s : Shard) : Prop :=
  s.valueFile = file ∧ ∀ key ve, s.data key = some ve → ve.payload = none → ve.offset + ve.size ≤ file.length

theorem Stored.setEntry {file : Bytes} {s : Shard} (stored : Stored file s) (key : Bytes) {ve : ValueEntry}
    (loaded : ve.payload ≠ none) : Stored file (s.setEntry key ve) := by
  refine ⟨stored.1, fun other entry found none => ?_⟩
  rw [Shard.setEntry_data] at found
  split at found
  · cases found
    exact absurd none loaded
  · exact stored.2 other entry found none

theorem Stored.move {file : Bytes} {s : Shard} (stored : Stored file s) (position : Nat) :
    Stored file { s with position } := stored

theorem Stored.getValue {file : Bytes} {s : Shard} (stored : Stored file s) {key : Bytes} {ve : ValueEntry}
    (found : s.data key = some ve) (whole : s.Whole ve) : Stored file (s.getValue key ve).2 := by
  unfold Shard.getValue
  cases payload : ve.payload with
  | some value => exact stored
  | none =>
    dsimp only
    split
    · exact stored.setEntry key (by simp)
    · next size =>
      have inside := stored.2 key ve found payload
      have moved : ∃ position, (s.readValue ve.offset ve.size).2 = { s with position } := by
        apply Shard.readValue_whole
        rw [← stored.1] at inside
        split
        · exact .inr inside
        · exact whole ⟨payload, by omega, by omega⟩
      obtain ⟨position, moved⟩ := moved
      generalize s.readValue ve.offset ve.size = result at moved
      obtain ⟨answer, s'⟩ := result
      cases moved
      cases answer with
      | error e => exact stored.move position
      | ok value => exact (stored.move position).setEntry key (by simp)

theorem Stored.forEach {file : Bytes} {s : Shard} (stored : Stored file s)
    {fn : List (Bytes × Bytes) → Bool} {seen : List (Bytes × Bytes)} {order : List Bytes}
    (whole : s.EachWhole fn seen order) : Stored file (s.forEach fn seen order).2 := by
  induction order generalizing s seen with
  | nil => exact stored
  | cons key rest ih =>
    cases found : s.data key with
    | none =>
      simp only [Shard.EachWhole, found] at whole
      simp only [Shard.forEach, found]
      exact ih stored whole
    | some ve =>
      simp only [Shard.EachWhole, found] at whole
      simp only [Shard.forEach, found]
      have loaded := stored.getValue found whole.1
      have rest := whole.2
      generalize s.getValue key ve = result at loaded rest
      obtain ⟨answer, s'⟩ := result
      cases answer with
      | error e => exact loaded
      | ok val =>
        dsimp only at rest ⊢
        split at rest
        · next more =>
          rw [if_pos more]
          exact ih loaded rest
        · next done =>
          rw [if_neg done]
          exact loaded

theorem Stored.get {file : Bytes} {s : Shard} (stored : Stored file s) {key : Bytes}
    (whole : ∀ ve ∈ s.data key, s.Whole ve) : Stored file (s.get key).2 := by
  cases found : s.data key with
  | none =>
    simp only [Shard.get, found]
    exact stored
  | some ve =>
    have loaded := stored.getValue found (whole ve found)
    simp only [Shard.get, found]
    generalize s.getValue key ve = result at loaded
    obtain ⟨answer, s'⟩ := result
    cases answer with
    | error e => exact loaded
    | ok val => exact loaded

theorem Stored.read {file : Bytes} {s : Shard} (stored : Stored file s) {call : ReadCall}
    (whole : s.ReadsWhole call) : Stored file (s.read call) := by
  cases call with
  | get key => exact stored.get whole
  | forEach order fn => exact stored.forEach whole

/-- The records that flushes write lie in the value file. -/
theorem flushAll_inside {batches : List (List WriteRequest)} {s s' : Shard}
    (offset : s.valueOffset = s.valueFile.length) (records : ∀ ie ∈ s.indexFile, Inside s.valueFile ie)
    (flushed : flushAll s batches = some s') : ∀ ie ∈ s'.indexFile, Inside s'.valueFile ie := by
  induction batches generalizing s with
  | nil =>
    cases flushed
    exact records
  | cons batch rest ih =>
    simp only [flushAll, List.foldlM_cons, Option.bind_eq_bind, Option.bind_eq_some_iff] at flushed
    obtain ⟨mid, first, later⟩ := flushed
    have wrote := Shard.flush_eq_some first
    refine ih (by rw [wrote.offset, wrote.values, offset, List.length_append]) ?_ later
    intro ie inside
    rw [wrote.index, offset] at inside
    rw [wrote.values]
    rcases List.mem_append.mp inside with old | new
    · exact (records ie old).grow _
    · exact (encodeBatch_inside wrote.room ie new).1

theorem stored_reopen {index : List IndexEntry} {file : Bytes} (records : ∀ ie ∈ index, Inside file ie) :
    Stored file (Shard.reopen index file) := by
  have replayed := Shard.reopen_replayed index file
  refine ⟨replayed.values, fun key ve found _ => ?_⟩
  rw [replayed.data key] at found
  obtain ⟨ie, last, rfl⟩ := Option.map_eq_some_iff.mp found
  exact (records ie (Shard.lookup_mem last).1).bound

/-- The files of flushed writes open, and reading leaves the value file alone as long as no value recorded at
offset zero is loaded where some bytes are left but fewer than it has. -/
theorem reads_keep_value_file (batches : List (List WriteRequest)) (s : Shard)
    (flushed : flushAll {} batches = some s) (narrow : ∀ r ∈ batches.flatten, r.key.length < 2 ^ 32) :
    ∃ reopened, openShard (indexBytes s.indexFile) s.valueFile = (some reopened, indexBytes s.indexFile) ∧
      ∀ calls, Runs.Along Shard.read Shard.ReadsWhole reopened calls →
        ∀ n, (Runs.exec Shard.read reopened (calls.take n)).valueFile = s.valueFile := by
  refine ⟨_, flushAll_opens flushed narrow, fun calls whole n => ?_⟩
  have records := flushAll_inside (s := {}) rfl (by simp) flushed
  exact (Runs.invariant_take _ (Stored s.valueFile) (fun _ _ stored ok => Stored.read stored ok)
    (stored_reopen records) whole n).1

def threeKeys : List (List WriteRequest) :=
  [[⟨[97], [1, 2], true⟩, ⟨[98], [3], true⟩, ⟨[99], [4], true⟩]]

theorem threeKeys_read_in_order : ∃ s reopened, flushAll {} threeKeys = some s ∧
    openShard (indexBytes s.indexFile) s.valueFile = (some reopened, indexBytes s.indexFile) ∧
    ∀ n, (Runs.exec Shard.read reopened
      ([.get [97], .forEach [[98], [97], [99]] (fun _ => true)].take n)).valueFile = [1, 2, 3, 4] := by
  obtain ⟨s, flushed⟩ : ∃ s, flushAll {} threeKeys = some s := ⟨_, rfl⟩
  obtain ⟨reopened, opens, keeps⟩ := reads_keep_value_file threeKeys s flushed (by decide)
  cases flushed
  cases opens
  exact ⟨_, _, rfl, rfl, keeps [.get [97], .forEach [[98], [97], [99]] (fun _ => true)] (by decide +kernel)⟩

/-- Behind the second value one byte is left: the read of the first value empties the file. -/
theorem threeKeys_read_truncates : ∃ s reopened, flushAll {} threeKeys = some s ∧ s.valueFile = [1, 2, 3, 4] ∧
    openShard (indexBytes s.indexFile) s.valueFile = (some reopened, indexBytes s.indexFile) ∧
    (Runs.exec Shard.read reopened [.get [98], .get [97]]).valueFile = [] ∧
    (Runs.exec Shard.read reopened [.forEach [[98], [97], [99]] (fun _ => true)]).valueFile = [] :=
  ⟨_, _, rfl, rfl, rfl, by decide +kernel, by decide +kernel⟩

end Engine

end Kvgo

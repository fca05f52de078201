import Kvgo.Engine.ReadBack

/-! Compaction of the index. The new index is written from the offsets in memory, and a
value that was put since the last reopen has no offset there. -/

namespace Kvgo

namespace Engine

def Shard.contents (s : Shard) (key : Bytes) : Option Bytes :=
  (s.data key).map (fun ve => ve.payload.getD ((s.valueFile.drop ve.offset).take ve.size))

inductive WriteEvent where
  | put (key value : Bytes)
  | putAsync (key value : Bytes)
  | flush (n : Nat)
  | get (key : Bytes)
  /-- The process ends and the shard is opened again. -/
  | reopen

def Shard.write (s : Shard) : WriteEvent → Shard
  | .put key value => s.put key value
  | .putAsync key value => s.putAsync key value
  | .flush n => (s.flushPending n).getD s
  | .get key => (s.get key).2
  | .reopen => (openShard (indexBytes s.indexFile) s.valueFile).1.getD s

/-- What stands at the position when a value recorded at offset zero is loaded: nothing, or at
least as much as the value has. -/
def Shard.Whole (s : Shard) (ve : ValueEntry) : Prop :=
  ve.payload = none ∧ 0 < ve.size ∧ ve.offset = 0 →
    s.valueFile.length ≤ s.position ∨ s.position + ve.size ≤ s.valueFile.length

instance (s : Shard) (ve : ValueEntry) : Decidable (s.Whole ve) :=
  inferInstanceAs (Decidable (_ → _))

def Shard.Admits (s : Shard) : WriteEvent → Prop
  | .put key _ | .putAsync key _ => key.length < 2 ^ 32
  | .get key => ∀ ve ∈ s.data key, s.Whole ve
  | .flush _ | .reopen => True

instance (s : Shard) : (e : WriteEvent) → Decidable (s.Admits e)
  | .put key _ | .putAsync key _ => inferInstanceAs (Decidable (key.length < 2 ^ 32))
  | .get key => inferInstanceAs (Decidable (∀ ve ∈ s.data key, s.Whole ve))
  | .flush _ | .reopen => isTrue trivial

structure Inside (valueFile : Bytes) (ie : IndexEntry) : Prop where
  size : ie.valueSize < 2 ^ 32
  bound : ie.valueOffset + ie.valueSize ≤ valueFile.length

/-- The map, the files and the requests of a shard, as far as compaction depends on them. -/
structure Coherent (s : Shard) : Prop where
  keys : ∀ key, key ∈ s.keys ↔ (s.data key).isSome
  nodup : s.keys.Nodup
  room : s.valueFile.length < 2 ^ 63
  offset : s.valueOffset = s.valueFile.length
  index : ∀ ie ∈ s.indexFile, Inside s.valueFile ie ∧ (s.data ie.key).isSome
  loaded : ∀ key ve value, s.data key = some ve → ve.payload = some value →
    Inside s.valueFile ⟨key, ve.size, ve.offset⟩ ∨ ve.size = value.length ∧ ve.offset = 0 ∧
      (value.length ≤ s.valueFile.length ∨ ∃ r ∈ s.pending, r.value = value)
  lazy : ∀ key ve, s.data key = some ve → ve.payload = none →
    Inside s.valueFile ⟨key, ve.size, ve.offset⟩
  waiting : ∀ r ∈ s.pending, r.sync = false → (s.data r.key).isSome
  narrow : ∀ key, (s.data key).isSome → key.length < 2 ^ 32
  queued : ∀ r ∈ s.pending, r.key.length < 2 ^ 32

theorem Inside.grow {file : Bytes} {ie : IndexEntry} (inside : Inside file ie) (more : Bytes) :
    Inside (file ++ more) ie :=
  ⟨inside.size, inside.bound.trans (by simp)⟩

theorem Shard.setEntry_isSome {s : Shard} {key other : Bytes} (here : (s.data other).isSome)
    (ve : ValueEntry) : ((s.setEntry key ve).data other).isSome := by
  rw [Shard.setEntry_data]
  split
  · rfl
  · exact here

theorem Coherent.putInternal {s : Shard} (good : Coherent s) {key value : Bytes}
    (known : value.length ≤ s.valueFile.length ∨ ∃ r ∈ s.pending, r.value = value)
    (word : key.length < 2 ^ 32) : Coherent (s.putInternal key value) := by
  refine ⟨Shard.setEntry_keys good.keys _ _, Shard.setEntry_nodup good.keys good.nodup _ _,
    good.room, good.offset, fun ie inside => ?_, fun other ve v here held => ?_,
    fun other ve here none => ?_, fun r inside async => ?_, fun other there => ?_, good.queued⟩
  · obtain ⟨bound, there⟩ := good.index ie inside
    exact ⟨bound, Shard.setEntry_isSome there _⟩
  · rw [Shard.putInternal, Shard.setEntry_data] at here
    split at here
    · cases here
      cases held
      exact .inr ⟨rfl, rfl, known⟩
    · exact good.loaded other ve v here held
  · rw [Shard.putInternal, Shard.setEntry_data] at here
    split at here
    · cases here; cases none
    · exact good.lazy other ve here none
  · exact Shard.setEntry_isSome (good.waiting r inside async) _
  · rw [Shard.putInternal, Shard.setEntry_data] at there
    split at there
    · next same => exact same ▸ word
    · exact good.narrow other there

/-- A request that waits longer. -/
theorem Coherent.enqueue {s : Shard} (good : Coherent s) {r : WriteRequest}
    (known : r.sync = false → (s.data r.key).isSome) (word : r.key.length < 2 ^ 32) :
    Coherent { s with pending := s.pending ++ [r] } :=
  { good with
    loaded := fun key ve value here held =>
      (good.loaded key ve value here held).imp_right fun ⟨size, offset, backed⟩ =>
        ⟨size, offset, backed.imp_right (fun ⟨q, inside, same⟩ => ⟨q, List.mem_append_left _ inside, same⟩)⟩
    waiting := fun q inside async => by
      rcases List.mem_append.mp inside with old | new
      · exact good.waiting q old async
      · rw [List.mem_singleton.mp new] at async ⊢
        exact known async
    queued := fun q inside => by
      rcases List.mem_append.mp inside with old | new
      · exact good.queued q old
      · rw [List.mem_singleton.mp new]
        exact word }

theorem encodeBatch_inside {file : Bytes} {batch : List WriteRequest}
    (room : file.length + (batch.map WriteRequest.value).flatten.length < 2 ^ 63) :
    ∀ ie ∈ Shard.encodeBatch file.length batch,
      Inside (file ++ (batch.map WriteRequest.value).flatten) ie ∧ ∃ r ∈ batch, r.key = ie.key := by
  induction batch generalizing file with
  | nil => intro ie inside; cases inside
  | cons r rest ih =>
    simp only [List.map_cons, List.flatten_cons, List.length_append] at room
    intro ie inside
    rcases List.mem_cons.mp inside with rfl | later
    · refine ⟨⟨?_, ?_⟩, r, by simp, rfl⟩
      · exact Nat.mod_lt _ (by norm_num)
      · simp only [encodeEntry, List.map_cons, List.flatten_cons, List.length_append]
        have := Nat.mod_le r.value.length (2 ^ 32)
        have := Nat.mod_le file.length (2 ^ 64)
        omega
    · have room' : (file ++ r.value).length + (rest.map WriteRequest.value).flatten.length < 2 ^ 63 := by
        rw [List.length_append]; omega
      obtain ⟨bound, q, member, same⟩ := ih room' ie (by simpa using later)
      exact ⟨by simpa [List.append_assoc] using bound, q, by simp [member], same⟩

theorem Coherent.applySync {s : Shard} (good : Coherent s) {batch : List WriteRequest}
    (fits : ∀ r ∈ batch, r.value.length ≤ s.valueFile.length ∧ r.key.length < 2 ^ 32) :
    Coherent (s.applySync batch) := by
  unfold Shard.applySync
  induction batch generalizing s with
  | nil => exact good
  | cons r rest ih =>
    rw [List.foldl_cons]
    split
    · obtain ⟨low, word⟩ := fits r (by simp)
      exact ih (good.putInternal (.inl low) word) (fun q inside => fits q (by simp [inside]))
    · exact ih good (fun q inside => fits q (by simp [inside]))

theorem Shard.applySync_isSome {s : Shard} {key : Bytes} (batch : List WriteRequest)
    (known : (s.data key).isSome ∨ ∃ r ∈ batch, r.sync = true ∧ r.key = key) :
    ((s.applySync batch).data key).isSome := by
  unfold Shard.applySync
  induction batch generalizing s with
  | nil => exact known.resolve_right (by simp)
  | cons r rest ih =>
    rw [List.foldl_cons]
    refine ih ?_
    rcases known with here | ⟨q, member, sync, same⟩
    · left
      split
      · exact Shard.setEntry_isSome here _
      · exact here
    · rcases List.mem_cons.mp member with rfl | later
      · left
        rw [if_pos sync, Shard.putInternal, Shard.setEntry_data, if_pos same.symm]
        rfl
      · exact .inr ⟨q, later, sync, same⟩

theorem Coherent.congr {s s' : Shard} (good : Coherent s) (data : s'.data = s.data)
    (keys : s'.keys = s.keys) (index : s'.indexFile = s.indexFile)
    (values : s'.valueFile = s.valueFile) (offset : s'.valueOffset = s.valueOffset)
    (pending : s'.pending = s.pending) : Coherent s' := by
  cases s
  cases s'
  simp only at data keys index values offset pending
  subst data keys index values offset pending
  exact ⟨good.keys, good.nodup, good.room, good.offset, good.index, good.loaded, good.lazy, good.waiting,
    good.narrow, good.queued⟩

theorem value_le_flatten {batch : List WriteRequest} {r : WriteRequest} (inside : r ∈ batch) :
    r.value.length ≤ (batch.map WriteRequest.value).flatten.length :=
  (List.sublist_flatten_of_mem (List.mem_map_of_mem inside)).length_le

def Shard.appended (s : Shard) (n : Nat) : Shard :=
  { s with
    pending := s.pending.drop n
    valueFile := s.valueFile ++ ((s.pending.take n).map WriteRequest.value).flatten
    valueOffset := s.valueOffset + ((s.pending.take n).map WriteRequest.value).flatten.length }

theorem Coherent.appended {s : Shard} (good : Coherent s) {n : Nat}
    (room : s.valueFile.length + ((s.pending.take n).map WriteRequest.value).flatten.length < 2 ^ 63) :
    Coherent (s.appended n) where
  keys := good.keys
  nodup := good.nodup
  room := by simpa [Shard.appended] using room
  offset := by simp [Shard.appended, good.offset]
  index ie inside := ⟨(good.index ie inside).1.grow _, (good.index ie inside).2⟩
  loaded key ve value here held := by
    refine (good.loaded key ve value here held).imp (fun inside => inside.grow _) fun ⟨size, offset, backed⟩ => ?_
    refine ⟨size, offset, ?_⟩
    simp only [Shard.appended, List.length_append]
    rcases backed with low | ⟨r, waits, rfl⟩
    · left; omega
    rw [← List.take_append_drop n s.pending, List.mem_append] at waits
    rcases waits with now | later
    · have := value_le_flatten now
      left; omega
    · exact .inr ⟨r, later, rfl⟩
  lazy key ve here none := (good.lazy key ve here none).grow _
  waiting r inside async := good.waiting r (List.mem_of_mem_drop inside) async
  narrow := good.narrow
  queued r inside := good.queued r (List.mem_of_mem_drop inside)

theorem Coherent.flushPending {s s' : Shard} (good : Coherent s) {n : Nat}
    (done : s.flushPending n = some s') : Coherent s' := by
  have flushed := Shard.flush_eq_some done
  have room : s.valueFile.length + ((s.pending.take n).map WriteRequest.value).flatten.length < 2 ^ 63 :=
    flushed.room
  -- the files first, then the memory, then the records of the batch
  have applied : Coherent ((s.appended n).applySync (s.pending.take n)) := by
    apply (good.appended room).applySync
    intro r inside
    refine ⟨?_, good.queued r (List.mem_of_mem_take inside)⟩
    have := value_le_flatten inside
    simp only [Shard.appended, List.length_append]
    omega
  obtain ⟨index, values, _, offset, pending⟩ :=
    Shard.applySync_files (s.appended n) (s.pending.take n)
  have recorded : Coherent { (s.appended n).applySync (s.pending.take n) with
      indexFile := s.indexFile ++ Shard.encodeBatch s.valueOffset (s.pending.take n) } := by
    refine { applied with index := fun ie inside => ?_ }
    rcases List.mem_append.mp inside with old | new
    · exact applied.index ie (by rw [index]; exact old)
    · rw [good.offset] at new
      obtain ⟨bound, r, member, same⟩ := encodeBatch_inside room ie new
      refine ⟨by rw [values]; exact bound, Shard.applySync_isSome (s.pending.take n) ?_⟩
      cases sync : r.sync with
      | true => exact .inr ⟨r, member, sync, same⟩
      | false => exact .inl (same ▸ good.waiting r (List.mem_of_mem_take member) sync)
  obtain ⟨data, keys⟩ := flushed.memory
  obtain ⟨data', keys'⟩ :
      (({ s with pending := s.pending.drop n } : Shard).applySync (s.pending.take n)).data =
          ((s.appended n).applySync (s.pending.take n)).data ∧
        (({ s with pending := s.pending.drop n } : Shard).applySync (s.pending.take n)).keys =
          ((s.appended n).applySync (s.pending.take n)).keys :=
    Shard.applySync_memory (by rfl) (by rfl) _
  exact recorded.congr (data.trans data') (keys.trans keys') flushed.index
    (flushed.values.trans values.symm) (flushed.offset.trans offset.symm)
    (flushed.pending.trans pending.symm)

theorem Coherent.reopen {s : Shard} (good : Coherent s) :
    Coherent (Shard.reopen s.indexFile s.valueFile) := by
  have replayed := Shard.reopen_replayed s.indexFile s.valueFile
  have entry : ∀ key ve, (Shard.reopen s.indexFile s.valueFile).data key = some ve →
      ∃ ie ∈ s.indexFile, ve = { size := ie.valueSize, offset := ie.valueOffset } := by
    intro key ve here
    rw [replayed.data key] at here
    obtain ⟨ie, found, rfl⟩ := Option.map_eq_some_iff.mp here
    exact ⟨ie, (Shard.lookup_mem found).1, rfl⟩
  refine ⟨replayed.keys, replayed.nodup, by rw [replayed.values]; exact good.room,
    by rw [replayed.offset, replayed.values], fun ie inside => ?_, fun key ve value here held => ?_,
    fun key ve here _ => ?_, by simp [replayed.pending], fun key there => ?_, by simp [replayed.pending]⟩
  · rw [replayed.index] at inside
    refine ⟨by rw [replayed.values]; exact (good.index ie inside).1, ?_⟩
    rw [replayed.data, Option.isSome_map, Option.isSome_iff_ne_none]
    exact fun none => Shard.lookup_eq_none.mp none ie inside rfl
  · obtain ⟨ie, _, rfl⟩ := entry key ve here
    cases held
  · obtain ⟨ie, inside, rfl⟩ := entry key ve here
    rw [replayed.values]
    exact ⟨(good.index ie inside).1.size, (good.index ie inside).1.bound⟩
  · rw [replayed.data, Option.isSome_map, Option.isSome_iff_exists] at there
    obtain ⟨ie, found⟩ := there
    obtain ⟨inside, rfl⟩ := Shard.lookup_mem found
    exact good.narrow ie.key (good.index ie inside).2

theorem Coherent.fits {s : Shard} (good : Coherent s) : ∀ ie ∈ s.indexFile, Fits ie := by
  intro ie inside
  obtain ⟨bound, there⟩ := good.index ie inside
  have := bound.bound
  have := good.room
  exact ⟨good.narrow ie.key there, bound.size, by omega⟩

/-- A read that finds nothing, or all it asks for, only moves the position. -/
theorem Shard.readValue_whole {s : Shard} {offset size : Nat}
    (whole : s.valueFile.length ≤ (if 0 < offset then offset else s.position) ∨
      (if 0 < offset then offset else s.position) + size ≤ s.valueFile.length) :
    ∃ position, (s.readValue offset size).2 = { s with position } := by
  unfold Shard.readValue
  generalize (if 0 < offset then offset else s.position) = place at whole
  by_cases invalid : 2 ^ 63 ≤ offset ∨ size = 0
  · exact ⟨s.position, by rw [if_pos invalid]⟩
  rw [if_neg invalid]
  dsimp only
  by_cases none : s.valueFile.drop place = []
  · exact ⟨place, by rw [if_pos none]⟩
  · have left : ¬(s.valueFile.drop place).length < size := by
      rw [List.drop_eq_nil_iff] at none
      rw [List.length_drop]
      omega
    exact ⟨place + size, by rw [if_neg none, if_neg left]⟩

/-- A load gives its entry a value and moves the position. -/
theorem Coherent.get {s : Shard} (good : Coherent s) {key : Bytes} (whole : ∀ ve ∈ s.data key, s.Whole ve) :
    Coherent (s.get key).2 := by
  unfold Shard.get
  cases found : s.data key with
  | none => exact good
  | some ve =>
    have there : (s.data key).isSome := by rw [found]; rfl
    have cached : ∀ (value : Bytes) (position : Nat), ve.payload = none →
        Coherent (({ s with position } : Shard).setEntry key { ve with payload := some value }) := by
      intro value position none
      have inside := good.lazy key ve found none
      have moved : Coherent ({ s with position } : Shard) := good.congr rfl rfl rfl rfl rfl rfl
      refine ⟨Shard.setEntry_keys moved.keys _ _, Shard.setEntry_nodup moved.keys moved.nodup _ _, good.room,
        good.offset, fun ie member => ?_, fun other entry v here held => ?_, fun other entry here lazy => ?_,
        fun r waits async => ?_, fun other named => ?_, good.queued⟩
      · exact ⟨(moved.index ie member).1, Shard.setEntry_isSome (moved.index ie member).2 _⟩
      · rw [Shard.setEntry_data] at here
        split at here
        · next same =>
          cases here
          exact .inl ⟨inside.size, inside.bound⟩
        · exact good.loaded other entry v here held
      · rw [Shard.setEntry_data] at here
        split at here
        · cases here
          cases lazy
        · exact good.lazy other entry here lazy
      · exact Shard.setEntry_isSome (moved.waiting r waits async) _
      · rw [Shard.setEntry_data] at named
        split at named
        · next same => exact same ▸ good.narrow key there
        · exact good.narrow other named
    dsimp only
    unfold Shard.getValue
    cases held : ve.payload with
    | some value => exact good
    | none =>
      dsimp only
      by_cases empty : ve.size = 0
      · rw [if_pos empty]
        exact cached [] s.position held
      rw [if_neg empty]
      have bound : ve.offset + ve.size ≤ s.valueFile.length := (good.lazy key ve found held).bound
      have enough : s.valueFile.length ≤ (if 0 < ve.offset then ve.offset else s.position) ∨
          (if 0 < ve.offset then ve.offset else s.position) + ve.size ≤ s.valueFile.length := by
        split
        · exact .inr bound
        · exact whole ve found ⟨held, by omega, by omega⟩
      obtain ⟨position, moved⟩ := Shard.readValue_whole enough
      generalize s.readValue ve.offset ve.size = result at moved
      obtain ⟨answer, s'⟩ := result
      cases moved
      cases answer with
      | error e => exact good.congr rfl rfl rfl rfl rfl rfl
      | ok value => exact cached value position held

theorem Coherent.write {s : Shard} (good : Coherent s) {e : WriteEvent} (admits : s.Admits e) :
    Coherent (s.write e) := by
  cases e with
  | put key value => exact good.enqueue (by simp) admits
  | putAsync key value =>
    -- the value stays known through the request, so request and entry go in together
    have queued : Coherent { s with pending := s.pending ++ [⟨key, value, true⟩] } :=
      good.enqueue (r := ⟨key, value, true⟩) (by simp) admits
    have stored : Coherent
        (({ s with pending := s.pending ++ [⟨key, value, true⟩] } : Shard).putInternal key value) :=
      queued.putInternal (.inr ⟨⟨key, value, true⟩, by simp, rfl⟩) admits
    refine { stored with
      loaded := fun k ve v here held => ?_
      waiting := fun r inside async => ?_
      queued := fun r inside => ?_ }
    · refine (stored.loaded k ve v here held).imp_right fun ⟨size, offset, backed⟩ => ?_
      refine ⟨size, offset, backed.imp_right (fun ⟨r, inside, same⟩ => ?_)⟩
      rcases List.mem_append.mp inside with old | new
      · exact ⟨r, List.mem_append_left _ old, same⟩
      · rw [List.mem_singleton.mp new] at same
        exact ⟨⟨key, value, false⟩, by simp [Shard.write, Shard.putAsync], same⟩
    · rcases List.mem_append.mp inside with old | new
      · exact Shard.setEntry_isSome (good.waiting r old async) _
      · rw [List.mem_singleton.mp new]
        show ((s.setEntry key _).data key).isSome
        rw [Shard.setEntry_data, if_pos rfl]
        rfl
    · rcases List.mem_append.mp inside with old | new
      · exact good.queued r old
      · rw [List.mem_singleton.mp new]
        exact admits
  | flush n =>
    simp only [Shard.write]
    cases done : s.flushPending n with
    | none => exact good
    | some s' => exact good.flushPending done
  | get key => exact good.get admits
  | reopen =>
    rw [Shard.write, openShard_indexBytes good.fits]
    exact good.reopen

theorem coherent_empty : Coherent {} := by
  constructor <;> simp

theorem coherent_exec {events : List WriteEvent} (admits : Runs.Along Shard.write Shard.Admits {} events) :
    Coherent (Runs.exec Shard.write {} events) :=
  Runs.invariant Shard.write Coherent (fun _ _ good ok => good.write ok) coherent_empty admits

/-! Compaction. -/

theorem lookup_snapshot {s : Shard} {order : List Bytes} (nodup : order.Nodup) (key : Bytes) :
    Shard.lookup (s.snapshot order) key =
      if key ∈ order then (s.data key).map (fun ve => encodeEntry key ve.size ve.offset) else none := by
  induction order using List.reverseRecOn with
  | nil => rfl
  | append_singleton order last ih =>
    obtain ⟨front, _, apart⟩ := List.nodup_append.mp nodup
    have rest := ih front
    have split : s.snapshot (order ++ [last]) = s.snapshot order ++
        ((s.data last).map (fun ve => encodeEntry last ve.size ve.offset)).toList := by
      cases here : s.data last <;> simp [Shard.snapshot, here]
    rw [split]
    by_cases same : last = key
    · subst same
      have absent : last ∉ order := fun inside => apart last inside last (by simp) rfl
      cases here : s.data last with
      | none => simp [rest, absent]
      | some ve =>
        simp only [Option.map_some, Option.toList_some, Shard.lookup_append]
        simp [encodeEntry]
    · cases here : s.data last with
      | none => simp [rest, Ne.symm same]
      | some ve =>
        simp only [Option.map_some, Option.toList_some, Shard.lookup_append]
        rw [if_neg (by simpa [encodeEntry] using same), rest]
        simp [Ne.symm same]

def compacted (s : Shard) (order : List Bytes) : Shard :=
  Shard.reopen (s.doCompact order).indexFile (s.doCompact order).valueFile

theorem Coherent.compacted_opens {s : Shard} (good : Coherent s) (order : List Bytes) :
    (openShard (indexBytes (s.doCompact order).indexFile) (s.doCompact order).valueFile).1 =
      some (compacted s order) := by
  rw [compacted, openShard_indexBytes]
  unfold Shard.doCompact
  dsimp only
  split
  · exact good.fits
  · intro ie inside
    obtain ⟨key, -, found⟩ := List.mem_filterMap.mp inside
    obtain ⟨ve, here, rfl⟩ := Option.map_eq_some_iff.mp found
    exact ⟨good.narrow key (by rw [here]; rfl), Nat.mod_lt _ (by norm_num), Nat.mod_lt _ (by norm_num)⟩

theorem compacted_data {s : Shard} (good : Coherent s) {order : List Bytes} (all : order.Perm s.keys)
    (key : Bytes) : (compacted s order).data key = (s.data key).map (fun ve =>
      { size := ve.size % 2 ^ 32, offset := ve.offset % 2 ^ 64 }) := by
  rw [compacted, (Shard.reopen_replayed _ _).data key]
  unfold Shard.doCompact
  dsimp only
  have found := lookup_snapshot (s := s) (all.nodup_iff.mpr good.nodup) key
  have member : key ∈ order ↔ (s.data key).isSome := all.mem_iff.trans (good.keys key)
  split
  · rename_i none
    -- nothing is written when the map is empty, and then the index is empty as well
    rw [none] at found
    have absent : s.data key = Option.none := by
      by_contra some
      rw [if_pos (member.mpr (Option.isSome_iff_ne_none.mpr some))] at found
      exact some (Option.map_eq_none_iff.mp found.symm)
    rw [absent, Option.map_none, Option.map_eq_none_iff, Shard.lookup_eq_none]
    intro ie inside same
    have there := (good.index ie inside).2
    rw [same, absent] at there
    cases there
  · rw [found]
    cases here : s.data key with
    | none => simp
    | some ve => simp [here, encodeEntry, member]

theorem Coherent.bound {s : Shard} (good : Coherent s) (drained : s.pending = []) {key : Bytes} {ve : ValueEntry}
    (here : s.data key = some ve) : ve.offset + ve.size % 2 ^ 32 ≤ s.valueFile.length := by
  have := Nat.mod_le ve.size (2 ^ 32)
  cases held : ve.payload with
  | none =>
    have inside : ve.offset + ve.size ≤ s.valueFile.length := (good.lazy key ve here held).bound
    omega
  | some value =>
    rcases good.loaded key ve value here held with inside | ⟨size, offset, backed⟩
    · have bound : ve.offset + ve.size ≤ s.valueFile.length := inside.bound
      omega
    · have low := backed.resolve_right (by simp [drained])
      omega

theorem compacted_get {s : Shard} (good : Coherent s) (drained : s.pending = []) {order : List Bytes}
    (all : order.Perm s.keys) (key : Bytes) : ((compacted s order).get key).1 =
      .ok ((s.data key).map (fun ve => (s.valueFile.drop ve.offset).take (ve.size % 2 ^ 32))) := by
  have replayed := Shard.reopen_replayed (s.doCompact order).indexFile (s.doCompact order).valueFile
  have same : (s.doCompact order).valueFile = s.valueFile := by
    unfold Shard.doCompact; dsimp only; split <;> rfl
  have values : (compacted s order).valueFile = s.valueFile := replayed.values.trans same
  have room := good.room
  have data (key : Bytes) : (compacted s order).data key = (s.data key).map (fun ve =>
      { size := ve.size % 2 ^ 32, offset := ve.offset }) := by
    rw [compacted_data good all key]
    refine Option.map_congr fun ve here => ?_
    have bound := good.bound drained here
    rw [Nat.mod_eq_of_lt (by omega : ve.offset < 2 ^ 64)]
  have answer := Shard.get_unloaded replayed.position (s := compacted s order)
    (fun key ve found => ?_) (fun key ve found => ?_) (by rwa [values]) key
  · rw [answer, data, values, Option.map_map]
    rfl
  · rw [data, Option.mem_def, Option.map_eq_some_iff] at found
    obtain ⟨old, -, rfl⟩ := found
    rfl
  · rw [data, Option.mem_def, Option.map_eq_some_iff] at found
    obtain ⟨old, here, rfl⟩ := found
    rw [values]
    exact good.bound drained here

/-- Compaction and a reopen keep the contents of a shard without waiting writes exactly if every value in memory
is what its entry denotes in the value file. A value that was put since the last reopen has offset zero in its
entry, one that was replayed and loaded the offset of its record. -/
theorem compaction_keeps_contents_iff (events : List WriteEvent) (order : List Bytes)
    (admits : Runs.Along Shard.write Shard.Admits {} events)
    (drained : (Runs.exec Shard.write {} events).pending = [])
    (all : order.Perm (Runs.exec Shard.write {} events).keys) :
    (∃ after, (openShard (indexBytes ((Runs.exec Shard.write {} events).doCompact order).indexFile)
        ((Runs.exec Shard.write {} events).doCompact order).valueFile).1 = some after ∧
      ∀ key, (after.get key).1 = .ok ((Runs.exec Shard.write {} events).contents key)) ↔
      ∀ key ve value, (Runs.exec Shard.write {} events).data key = some ve → ve.payload = some value →
        ((Runs.exec Shard.write {} events).valueFile.drop ve.offset).take (ve.size % 2 ^ 32) = value := by
  have good := coherent_exec admits
  generalize Runs.exec Shard.write {} events = s at drained all good ⊢
  rw [good.compacted_opens order]
  constructor
  · rintro ⟨after, opened, reads⟩ key ve value here held
    obtain rfl := Option.some.inj opened
    have same := reads key
    rw [compacted_get good drained all key] at same
    simpa [Shard.contents, here, held] using same
  · refine fun denotes => ⟨_, rfl, fun key => ?_⟩
    rw [compacted_get good drained all key, Shard.contents]
    cases here : s.data key with
    | none => rfl
    | some ve =>
      cases held : ve.payload with
      | some value => simp only [Option.map_some, held, Option.getD_some, denotes key ve value here held]
      | none =>
        have small := (good.lazy key ve here held).size
        simp only [Option.map_some, held, Option.getD_none]
        rw [Nat.mod_eq_of_lt small]

def putTwo : List WriteEvent := [.put [97] [1], .put [98] [2], .flush 2]

def putReopenGet : List WriteEvent := putTwo ++ [.reopen, .get [98]]

theorem compaction_after_reopen :
    ((Runs.exec Shard.write {} putReopenGet).data [98]).map ValueEntry.payload = some (some [2]) ∧
    ∃ after, (openShard (indexBytes ((Runs.exec Shard.write {} putReopenGet).doCompact [[98], [97]]).indexFile)
        ((Runs.exec Shard.write {} putReopenGet).doCompact [[98], [97]]).valueFile).1 = some after ∧
      ∀ key, (after.get key).1 = .ok ((Runs.exec Shard.write {} putReopenGet).contents key) := by
  refine ⟨by decide +kernel, (compaction_keeps_contents_iff putReopenGet [[98], [97]] (by decide +kernel)
    (by decide +kernel) (by decide +kernel)).mpr fun key ve value here held => ?_⟩
  have good : Coherent (Runs.exec Shard.write {} putReopenGet) := coherent_exec (by decide +kernel)
  have named : key ∈ (Runs.exec Shard.write {} putReopenGet).keys := (good.keys key).mpr (by rw [here]; rfl)
  have checked : ∀ key ∈ (Runs.exec Shard.write {} putReopenGet).keys,
      ∀ ve ∈ (Runs.exec Shard.write {} putReopenGet).data key, ∀ value ∈ ve.payload,
        ((Runs.exec Shard.write {} putReopenGet).valueFile.drop ve.offset).take (ve.size % 2 ^ 32) = value := by
    decide +kernel
  exact checked key named ve here value held

/-- Without a reopen the second key reads back the value of the first. -/
theorem compaction_loses_value :
    (Runs.exec Shard.write {} putTwo).pending = [] ∧
      (Runs.exec Shard.write {} putTwo).contents [98] = some [2] ∧
      ∃ after, (openShard (indexBytes ((Runs.exec Shard.write {} putTwo).doCompact [[97], [98]]).indexFile)
        ((Runs.exec Shard.write {} putTwo).doCompact [[97], [98]]).valueFile).1 = some after ∧
        (after.get [98]).1 = .ok (some [1]) :=
  ⟨by decide +kernel, by decide +kernel, _, rfl, by decide +kernel⟩

end Engine

end Kvgo

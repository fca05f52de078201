import Kvgo.Engine.CleanupFailure

/-! A cleanup that finds temp files of an earlier one. The new records are appended to the old ones and
the new values to the old values, while the new offsets count from zero. -/

namespace Kvgo

namespace Engine

open Cleaning

def sliceOf (values : Bytes) (ie : IndexEntry) : Bytes := (values.drop ie.valueOffset).take ie.valueSize

/-- The answer of a shard that has loaded nothing yet: what the entry points to, if all of it is there. -/
theorem Shard.get_fresh_iff {s : Shard} (start : s.position = 0) (room : s.valueFile.length < 2 ^ 63) {key : Bytes}
    (unloaded : ∀ ve ∈ s.data key, ve.payload = none) (value : Option Bytes) :
    (s.get key).1 = .ok value ↔
      value = (s.data key).map (fun ve => (s.valueFile.drop ve.offset).take ve.size) ∧
        ∀ ve ∈ s.data key, ((s.valueFile.drop ve.offset).take ve.size).length = ve.size := by
  unfold Shard.get
  cases found : s.data key with
  | none => simp [eq_comm]
  | some ve =>
    have lazy := unloaded ve found
    have place : (if 0 < ve.offset then ve.offset else s.position) = ve.offset := by
      rw [start]
      split <;> omega
    simp only [Option.map_some, Option.mem_def, Option.some.injEq, forall_eq', Shard.getValue, lazy]
    by_cases empty : ve.size = 0
    · simp [empty, eq_comm]
    rw [if_neg empty, Shard.readValue, place, List.length_take, List.length_drop]
    by_cases far : 2 ^ 63 ≤ ve.offset
    · rw [if_pos (.inl far)]
      simp only [reduceCtorEq, false_iff]
      omega
    rw [if_neg (by omega)]
    dsimp only
    by_cases none : s.valueFile.drop ve.offset = []
    · rw [if_pos none]
      rw [List.drop_eq_nil_iff] at none
      simp only [reduceCtorEq, false_iff]
      omega
    rw [if_neg none, List.length_drop]
    by_cases short : s.valueFile.length - ve.offset < ve.size
    · rw [if_pos short]
      simp only [reduceCtorEq, false_iff]
      omega
    · rw [if_neg short]
      simp only [Except.ok.injEq]
      exact ⟨fun same => ⟨same.symm, by omega⟩, fun same => same.1.symm⟩

/-- The files read back exactly if the index splits into records to its last byte and the last record of each
key points to its value. -/
theorem readsBack_iff_records {index values : Bytes} {latest : Bytes → Option Bytes} (room : values.length < 2 ^ 63) :
    ReadsBack index values latest ↔ ∃ entries, readIndex index = (entries, none) ∧ ∀ key,
      latest key = (Shard.lookup entries key).map (sliceOf values) ∧
        ∀ ie ∈ Shard.lookup entries key, (sliceOf values ie).length = ie.valueSize := by
  have reads (entries : List IndexEntry) (key : Bytes) :
      ((Shard.reopen entries values).get key).1 = .ok (latest key) ↔
        latest key = (Shard.lookup entries key).map (sliceOf values) ∧
          ∀ ie ∈ Shard.lookup entries key, (sliceOf values ie).length = ie.valueSize := by
    have replayed := Shard.reopen_replayed entries values
    rw [Shard.get_fresh_iff replayed.position (by rwa [replayed.values]) (fun ve found => ?_), replayed.data,
      replayed.values, Option.map_map]
    · simp only [Option.mem_def, Option.map_eq_some_iff, forall_exists_index, and_imp,
        forall_apply_eq_imp_iff₂]
      rfl
    · rw [replayed.data, Option.mem_def, Option.map_eq_some_iff] at found
      obtain ⟨ie, -, rfl⟩ := found
      rfl
  unfold ReadsBack openShard
  rcases readIndex index with ⟨entries, _ | position⟩
  · simp [reads]
  · simp

theorem readsBack_iff {entries : List IndexEntry} {values : Bytes} {latest : Bytes → Option Bytes}
    (fits : ∀ ie ∈ entries, Fits ie) (room : values.length < 2 ^ 63)
    (bound : ∀ key ie, Shard.lookup entries key = some ie → ie.valueOffset + ie.valueSize ≤ values.length) :
    ReadsBack (indexBytes entries) values latest ↔
      ∀ key, latest key = (Shard.lookup entries key).map (sliceOf values) := by
  rw [readsBack_iff_records room, readIndex_indexBytes fits]
  constructor
  · rintro ⟨_, same, reads⟩ key
    cases same
    exact (reads key).1
  · refine fun same => ⟨entries, rfl, fun key => ⟨same key, fun ie found => ?_⟩⟩
    have := bound key ie found
    rw [sliceOf, List.length_take, List.length_drop]
    omega

theorem append_prefix_iff {α : Type} {first second whole : List α} :
    first ++ second <+: whole ↔ whole.take first.length = first ∧ second <+: whole.drop first.length := by
  constructor
  · rintro ⟨rest, rfl⟩
    simp
  · rintro ⟨here, rest, later⟩
    exact ⟨rest, by rw [List.append_assoc, later, ← List.take_append_drop first.length whole, here]; simp⟩

/-- The records of a batch point to its values exactly if these are in the file from the offset on. -/
theorem records_slice_iff {offset : Nat} {batch : List WriteRequest} {file : Bytes} (small : Small batch)
    (room : offset + (batch.map WriteRequest.value).flatten.length < 2 ^ 64) :
    (∀ p ∈ recordsOf offset batch, sliceOf file p.1 = p.2) ↔
      (batch.map WriteRequest.value).flatten <+: file.drop offset := by
  induction batch generalizing offset with
  | nil => simp [recordsOf, Shard.encodeBatch]
  | cons r rest ih =>
    simp only [List.map_cons, List.flatten_cons, List.length_append] at room ⊢
    obtain ⟨-, valueFits⟩ := small r (by simp)
    have next : (∀ p ∈ recordsOf (offset + r.value.length) rest, sliceOf file p.1 = p.2) ↔
        (rest.map WriteRequest.value).flatten <+: file.drop (offset + r.value.length) :=
      ih (fun q inside => small q (by simp [inside])) (by omega)
    have split : recordsOf offset (r :: rest) = (encodeEntry r.key r.value.length offset, r.value) ::
      recordsOf (offset + r.value.length) rest := rfl
    have here : sliceOf file (encodeEntry r.key r.value.length offset) =
        (file.drop offset).take r.value.length := by
      rw [sliceOf, encodeEntry]
      dsimp only
      rw [Nat.mod_eq_of_lt valueFits, Nat.mod_eq_of_lt (by omega)]
    rw [split, List.forall_mem_cons, here, next, append_prefix_iff, List.drop_drop]

def liveValues (latest : Bytes → Option Bytes) (order : List Bytes) : Bytes :=
  ((liveBatch latest order).map WriteRequest.value).flatten

section

variable {f f' : Folder} {latest : Bytes → Option Bytes} {order : List Bytes}

theorem Folder.Sound.small (sound : f.Sound latest) (key : Bytes) : ((latest key).getD []).length < 2 ^ 32 := by
  have here := sound.holds key
  cases last : latest key with
  | none => norm_num
  | some value =>
    simp only [last] at here
    obtain ⟨ie, found, denotes⟩ := here
    rw [Option.getD_some, ← denotes.size]
    exact (sound.fits ie (Shard.lookup_mem found).1).size

/-- The files of a cleanup that returned nil. -/
theorem Folder.doCleanup_files (sound : f.Sound latest) (all : order.Perm f.shard.keys)
    (finds : Runs.Along Shard.load Shard.Finds f.shard order) (done : f.doCleanup order none = (.ok (), f')) :
    Small (liveBatch latest order) ∧
      f'.index = f.tempIndex ++ indexBytes (Shard.encodeBatch 0 (liveBatch latest order)) ∧
      f'.values = f.tempValue ++ liveValues latest order := by
  have plan : writePlan none = never := rfl
  by_cases long : ∃ key ∈ order, cleanupIndexBufferSize - 16 < key.length
  · have stopped := doCleanup_long plan (by simp) sound all finds long
    rw [done] at stopped
    cases stopped
  · push Not at long
    have short (key : Bytes) (inside : key ∈ order) := walIndexLen_le.mpr (long key inside)
    obtain ⟨c, written, index, values, -⟩ :=
      writeCleanupData_never sound.backed (sound.visited all) finds short f.tempIndex f.tempValue
    rw [doCleanup, if_neg (by simp), plan, written] at done
    obtain rfl : _ = f' := (Prod.mk.inj done).2
    exact ⟨liveBatch_small short (fun key _ => sound.small key), index, values⟩

theorem live_record (known : ∀ key ∈ order, (latest key).isSome) {p : IndexEntry × Bytes}
    (inside : p ∈ recordsOf 0 (liveBatch latest order)) : latest p.1.key = some p.2 := by
  obtain ⟨r, live, key, value⟩ := recordsOf_mem inside
  obtain ⟨visited, member, rfl⟩ := List.mem_map.mp live
  obtain ⟨stored, last⟩ := Option.isSome_iff_exists.mp (known visited member)
  dsimp only at key value
  rw [← key, ← value, last, Option.getD_some]

theorem exists_live_record (latest : Bytes → Option Bytes) {key : Bytes} (inside : key ∈ order) :
    ∃ p ∈ recordsOf 0 (liveBatch latest order), p.1.key = key := by
  rw [← liveBatch_keys latest order, ← encodeBatch_keys 0, ← recordsOf_fst, List.map_map] at inside
  exact List.mem_map.mp inside

theorem live_record_bound (small : Small (liveBatch latest order))
    (room : (liveValues latest order).length < 2 ^ 63) {p : IndexEntry × Bytes}
    (inside : p ∈ recordsOf 0 (liveBatch latest order)) :
    p.1.valueOffset + p.1.valueSize ≤ (liveValues latest order).length := by
  have start : ([] : Bytes).length + ((liveBatch latest order).map WriteRequest.value).flatten.length <
      2 ^ 63 := by
    simpa [liveValues] using room
  exact (recordsOf_placed small start p inside).1.bound

variable {left : List IndexEntry}

theorem lookup_live (nodup : order.Nodup) {p : IndexEntry × Bytes}
    (inside : p ∈ recordsOf 0 (liveBatch latest order)) :
    Shard.lookup (left ++ Shard.encodeBatch 0 (liveBatch latest order)) p.1.key = some p.1 := by
  have member : p.1 ∈ Shard.encodeBatch 0 (liveBatch latest order) := by
    rw [← recordsOf_fst]
    exact List.mem_map_of_mem inside
  rw [Shard.lookup_append_index, Shard.lookup_of_mem (by rwa [encodeBatch_keys, liveBatch_keys]) member,
    Option.some_or]

theorem lookup_live_none (known : ∀ ie ∈ left, ie.key ∈ order) {key : Bytes} (absent : key ∉ order) :
    Shard.lookup (left ++ Shard.encodeBatch 0 (liveBatch latest order)) key = none := by
  refine Shard.lookup_eq_none.mpr fun ie inside same => absent ?_
  rcases List.mem_append.mp inside with old | new
  · exact same ▸ known ie old
  · have member : ie.key ∈ (Shard.encodeBatch 0 (liveBatch latest order)).map IndexEntry.key :=
      List.mem_map_of_mem new
    rwa [encodeBatch_keys, liveBatch_keys, same] at member

/-- Each key is recorded with its value exactly if the file begins with the live values. -/
theorem live_slices_iff (small : Small (liveBatch latest order)) (nodup : order.Nodup)
    (visited : ∀ key, key ∈ order ↔ (latest key).isSome) (known : ∀ ie ∈ left, ie.key ∈ order)
    (room : (liveValues latest order).length < 2 ^ 63) (file : Bytes) :
    (∀ key, latest key = (Shard.lookup (left ++ Shard.encodeBatch 0 (liveBatch latest order)) key).map
      (sliceOf file)) ↔ liveValues latest order <+: file := by
  have start : 0 + ((liveBatch latest order).map WriteRequest.value).flatten.length < 2 ^ 64 := by
    rw [liveValues] at room
    omega
  have records : (∀ p ∈ recordsOf 0 (liveBatch latest order), sliceOf file p.1 = p.2) ↔
      ((liveBatch latest order).map WriteRequest.value).flatten <+: file.drop 0 := records_slice_iff small start
  rw [List.drop_zero] at records
  rw [liveValues, ← records]
  constructor
  · intro same p inside
    have here := same p.1.key
    rw [lookup_live nodup inside, live_record (fun key => (visited key).mp) inside] at here
    exact (Option.some.inj here).symm
  · intro slices key
    by_cases inside : key ∈ order
    · obtain ⟨p, record, rfl⟩ := exists_live_record latest inside
      rw [lookup_live nodup record, live_record (fun key => (visited key).mp) record, Option.map_some,
        slices p record]
    · have absent : latest key = none := by simpa [inside] using visited key
      rw [lookup_live_none known inside, Option.map_none, absent]

theorem Shard.get_eq_none {s : Shard} {key : Bytes} (answer : (s.get key).1 = .ok none) : s.data key = none := by
  cases found : s.data key with
  | none => rfl
  | some ve =>
    simp only [Shard.get, found] at answer
    split at answer <;> cases answer

theorem ReadsBack.isSome_of_mem {entries : List IndexEntry} {values : Bytes} (fits : ∀ ie ∈ entries, Fits ie)
    (reads : ReadsBack (indexBytes entries) values latest) {ie : IndexEntry} (inside : ie ∈ entries) :
    (latest ie.key).isSome := by
  obtain ⟨s, opened, reads⟩ := reads
  rw [openShard_indexBytes fits] at opened
  obtain rfl : Shard.reopen entries values = s := Option.some.inj opened
  by_contra absent
  rw [Option.not_isSome_iff_eq_none] at absent
  have gone := Shard.get_eq_none ((reads ie.key).trans (by rw [absent]))
  rw [(Shard.reopen_replayed _ _).data, Option.map_eq_none_iff, Shard.lookup_eq_none] at gone
  exact gone ie inside rfl

end

/-- Whole records left in the temp index are harmless exactly if these are records of keys of the shard and the
file of leftover and live values begins with the live values. -/
theorem whole_leftovers_iff {f f' : Folder} {latest : Bytes → Option Bytes} (sound : f.Sound latest)
    {order : List Bytes} (all : order.Perm f.shard.keys)
    (finds : Runs.Along Shard.load Shard.Finds f.shard order)
    (room : f.tempValue.length + (liveValues latest order).length < 2 ^ 63)
    (done : f.doCleanup order none = (.ok (), f')) {left : List IndexEntry}
    (fits : ∀ ie ∈ left, Fits ie) (whole : f.tempIndex = indexBytes left) :
    ReadsBack f'.index f'.values latest ↔
      (∀ ie ∈ left, ie.key ∈ f.shard.keys) ∧
        liveValues latest order <+: f.tempValue ++ liveValues latest order := by
  obtain ⟨small, index, values⟩ := Folder.doCleanup_files sound all finds done
  rw [index, values, whole, ← indexBytes_append]
  have visited (key : Bytes) : key ∈ order ↔ (latest key).isSome := by
    rw [all.mem_iff, sound.map, sound.backed.isSome_iff]
  have nodup : order.Nodup := all.nodup_iff.mpr sound.nodup
  have readable : ∀ ie ∈ left ++ Shard.encodeBatch 0 (liveBatch latest order), Fits ie := fun ie inside =>
    (List.mem_append.mp inside).elim (fits ie) (Small.fits small ie)
  have reads_iff (known : ∀ ie ∈ left, ie.key ∈ order) : ReadsBack
      (indexBytes (left ++ Shard.encodeBatch 0 (liveBatch latest order)))
      (f.tempValue ++ liveValues latest order) latest ↔
        liveValues latest order <+: f.tempValue ++ liveValues latest order := by
    rw [← live_slices_iff small nodup visited known (by omega)]
    refine readsBack_iff readable (by rwa [List.length_append]) fun key ie found => ?_
    by_cases inside : key ∈ order
    · obtain ⟨p, record, rfl⟩ := exists_live_record latest inside
      obtain rfl : p.1 = ie := Option.some.inj ((lookup_live nodup record).symm.trans found)
      have bound := live_record_bound small (by omega) record
      rw [List.length_append]
      omega
    · rw [lookup_live_none known inside] at found
      cases found
  constructor
  · intro reads
    have known : ∀ ie ∈ left, ie.key ∈ order := fun ie old =>
      (visited ie.key).mpr (reads.isSome_of_mem readable (List.mem_append_left _ old))
    exact ⟨fun ie old => all.mem_iff.mp (known ie old), (reads_iff known).mp reads⟩
  · rintro ⟨known, begins⟩
    exact (reads_iff fun ie old => all.mem_iff.mpr (known ie old)).mpr begins

/-- Whatever is left in the temp files, a cleanup that returns nil keeps the contents exactly if the leftover
bytes and the records of the live keys together split into records, the last one of each key pointing to its
value in the leftover and the live values. If the leftover index consists of whole records, that is to say that
these are records of keys of the shard and the file of values begins with the live ones. -/
theorem cleanup_with_leftovers_iff (f : Folder) (latest : Bytes → Option Bytes) (sound : f.Sound latest)
    (order : List Bytes) (all : order.Perm f.shard.keys)
    (finds : Runs.Along Shard.load Shard.Finds f.shard order)
    (room : f.tempValue.length + (liveValues latest order).length < 2 ^ 63) (f' : Folder)
    (done : f.doCleanup order none = (.ok (), f')) :
    (ReadsBack f'.index f'.values latest ↔
      ∃ entries, readIndex (f.tempIndex ++ indexBytes (Shard.encodeBatch 0 (liveBatch latest order))) =
          (entries, none) ∧
        ∀ key, latest key =
            (Shard.lookup entries key).map (sliceOf (f.tempValue ++ liveValues latest order)) ∧
          ∀ ie ∈ Shard.lookup entries key,
            (sliceOf (f.tempValue ++ liveValues latest order) ie).length = ie.valueSize) ∧
    ∀ left, (∀ ie ∈ left, Fits ie) → f.tempIndex = indexBytes left →
      (ReadsBack f'.index f'.values latest ↔
        (∀ ie ∈ left, ie.key ∈ f.shard.keys) ∧
          liveValues latest order <+: f.tempValue ++ liveValues latest order) := by
  refine ⟨?_, fun left fits whole => whole_leftovers_iff sound all finds room done fits whole⟩
  obtain ⟨-, index, values⟩ := Folder.doCleanup_files sound all finds done
  rw [index, values]
  exact readsBack_iff_records (by rwa [List.length_append])

def unsynced : Folder :=
  rewritten.interrupted [[97], [98]] 0
    (indexBytes (Shard.encodeBatch 0 (liveBatch (latestPuts (fun _ => none) rewrites) [[97], [98]])))
    (liveValues (latestPuts (fun _ => none) rewrites) [[97], [98]])

def unsyncedTorn : Folder :=
  rewritten.interrupted [[97], [98]] 0
    ((indexBytes (Shard.encodeBatch 0 (liveBatch (latestPuts (fun _ => none) rewrites) [[97], [98]]))).take 5)
    (liveValues (latestPuts (fun _ => none) rewrites) [[97], [98]])

/-- The files that the failed cleanup leaves are harmless: nothing was put in between, and the keys are visited
in the same order. With a torn index the shard does not read back. -/
theorem unsynced_cleanup_repeated :
    (rewritten.doCleanup [[97], [98]] (some .syncIndex)).2.tempIndex = unsynced.tempIndex ∧
      (rewritten.doCleanup [[97], [98]] (some .syncIndex)).2.tempValue = unsynced.tempValue ∧
      ReadsBack (unsynced.doCleanup [[97], [98]] none).2.index (unsynced.doCleanup [[97], [98]] none).2.values
        (latestPuts (fun _ => none) rewrites) ∧
      ¬ReadsBack (unsyncedTorn.doCleanup [[97], [98]] none).2.index
        (unsyncedTorn.doCleanup [[97], [98]] none).2.values (latestPuts (fun _ => none) rewrites) := by
  have steady := rewritten_sound.2.steady [[97], [98]]
  have small : Small (liveBatch (latestPuts (fun _ => none) rewrites) [[97], [98]]) := by
    decide +kernel
  refine ⟨by decide +kernel, by decide +kernel, ?_, fun reads => ?_⟩
  · exact ((cleanup_with_leftovers_iff unsynced _ (rewritten_sound.1.interrupted steady 0 _ _) [[97], [98]]
      (by decide +kernel) steady.along (by decide +kernel) _ rfl).2 _ (Small.fits small) rfl).mpr
        ⟨by decide +kernel, by decide +kernel⟩
  · obtain ⟨entries, split, -⟩ := ((cleanup_with_leftovers_iff unsyncedTorn _
      (rewritten_sound.1.interrupted steady 0 _ _) [[97], [98]] (by decide +kernel) steady.along
      (by decide +kernel) _ rfl).1).mp reads
    have torn : (readIndex (unsyncedTorn.tempIndex ++ indexBytes (Shard.encodeBatch 0
        (liveBatch (latestPuts (fun _ => none) rewrites) [[97], [98]])))).2 ≠ none := by decide +kernel
    exact torn (by rw [split])

def single : Folder := (putAll {} [([97], [9])]).getD {}

def overwritten : Folder := ((single.doCleanup [[97]] (some (.write 1 0))).2.put [97] [1]).getD {}

/-- The next cleanup returns nil and brings the old value back. -/
theorem leftover_value_returns :
    (single.doCleanup [[97]] (some (.write 1 0))).1 = .error .write ∧
      (single.doCleanup [[97]] (some (.write 1 0))).2.tempIndex = [] ∧
      (overwritten.get [97]) = some (.ok (some [1])) ∧
      (overwritten.doCleanup [[97]] none).1 = .ok () ∧
      (openShard (overwritten.doCleanup [[97]] none).2.index (overwritten.doCleanup [[97]] none).2.values).1.map
        (fun s => (s.get [97]).1) = some (.ok (some [9])) := by
  decide +kernel

end Engine

end Kvgo

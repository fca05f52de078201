import Kvgo.Engine.CleanupData

/-! A whole cleanup (`doCleanup`) in the folder of its shard, with every step that can fail. The temp
files are opened for appending and never truncated; between closing the live files and opening the new
ones the shard has no files at all. -/

namespace Kvgo

namespace Engine

open Cleaning

/-- A shard, the bytes behind the four paths of its files, and whether its `wal` is open. A temp file
that does not exist is an empty one: it is opened with `O_CREATE|O_APPEND`. -/
structure Folder where
  shard : Shard := {}
  index : Bytes := []
  values : Bytes := []
  tempIndex : Bytes := []
  tempValue : Bytes := []
  isOpen : Bool := true

/-- The step of `doCleanup` that fails; `write n k` is the write number `n`, after `k` bytes. -/
inductive CleanupFault where
  | createIndex
  | createValue
  | write (n k : Nat)
  | syncValue
  | syncIndex
  | close
  | renameIndex
  | renameValue
  | reopen
  deriving DecidableEq, Repr

def CleanupFault.beforeClose : CleanupFault → Bool
  | .createIndex | .createValue | .write _ _ | .syncValue | .syncIndex => true
  | .close | .renameIndex | .renameValue | .reopen => false

def writePlan : Option CleanupFault → Nat → Option Nat
  | some (.write n k) => fun m => if m = n then some k else none
  | _ => never

namespace Folder

def updateShardAfterCleanup (f : Folder) (c : Cleaning) (fault : Option CleanupFault) :
    Except CleanupError Unit × Folder :=
  if fault = some .reopen then (.error .reopen, f)
  else (.ok (), { f with
    shard := f.shard.updateAfterCleanup f.index f.values c.newOffsets c.newValueOffset
    isOpen := true })

def swapCleanupFiles (f : Folder) (c : Cleaning) (fault : Option CleanupFault) :
    Except CleanupError Unit × Folder :=
  if fault = some .syncValue ∨ fault = some .syncIndex then (.error .sync, f)
  else if fault = some .close then (.error .close, { f with isOpen := false })
  else if fault = some .renameIndex then (.error .rename, { f with isOpen := false })
  else if fault = some .renameValue then
    (.error .rename, { f with isOpen := false, index := f.tempIndex, tempIndex := [] })
  else
    updateShardAfterCleanup { f with
      isOpen := false
      index := f.tempIndex
      values := f.tempValue
      tempIndex := []
      tempValue := [] } c fault

def filled (f : Folder) (c : Cleaning) : Folder :=
  { f with shard := c.shard, values := c.shard.valueFile, tempIndex := c.tempIndex, tempValue := c.tempValue }

def doCleanup (f : Folder) (order : List Bytes) (fault : Option CleanupFault) :
    Except CleanupError Unit × Folder :=
  if fault = some .createIndex ∨ fault = some .createValue then (.error .create, f)
  else
    match writeCleanupData (writePlan fault) f.shard f.tempIndex f.tempValue order with
    | (.error e, c) => (.error e, f.filled c)
    | (.ok (), c) => (f.filled c).swapCleanupFiles c fault

/-- A `get`; `none` is the error of a read from a closed file. -/
def get (f : Folder) (key : Bytes) : Option (Except ReadError (Option Bytes)) :=
  if f.isOpen then some (f.shard.get key).1
  else
    match f.shard.data key with
    | none => some (.ok none)
    | some ve =>
      match ve.payload with
      | some value => some (.ok (some value))
      | none => if ve.size = 0 then some (.ok (some [])) else none

/-- A `put` that is flushed at once; `none` is the error it returns before the committer panics. -/
def put (f : Folder) (key value : Bytes) : Option Folder :=
  if f.isOpen then
    (f.shard.flush [⟨key, value, true⟩]).map (fun shard => { f with
      shard
      index := f.index ++ indexBytes (Shard.encodeBatch f.shard.valueOffset [⟨key, value, true⟩])
      values := shard.valueFile })
  else none

end Folder

structure Folder.Sound (f : Folder) (latest : Bytes → Option Bytes) : Prop where
  up : f.isOpen = true
  file : f.shard.valueFile = f.values
  offset : f.shard.valueOffset = f.values.length
  room : f.values.length < 2 ^ 63
  map : ∀ key, key ∈ f.shard.keys ↔ (f.shard.data key).isSome
  nodup : f.shard.keys.Nodup
  backed : Backed f.shard latest
  index : f.index = indexBytes f.shard.indexFile
  fits : ∀ ie ∈ f.shard.indexFile, Fits ie
  holds : Holds f.shard.indexFile f.values latest

def ReadsBack (index values : Bytes) (latest : Bytes → Option Bytes) : Prop :=
  ∃ s, (openShard index values).1 = some s ∧ ∀ key, (s.get key).1 = .ok (latest key)

theorem readsBack_of_holds {entries : List IndexEntry} {values : Bytes} {latest : Bytes → Option Bytes}
    (fits : ∀ ie ∈ entries, Fits ie) (holds : Holds entries values latest) :
    ReadsBack (indexBytes entries) values latest := by
  refine ⟨Shard.reopen entries values, by rw [openShard_indexBytes fits], fun key => ?_⟩
  have written : Written { indexFile := entries, valueFile := values, valueOffset := values.length } latest :=
    ⟨rfl, holds⟩
  exact (written.reopen_backed.get (fun _ _ _ => (Shard.reopen_replayed entries values).position)).1

namespace Folder

variable {f f' : Folder} {latest : Bytes → Option Bytes}

theorem sound_empty : Sound {} (fun _ => none) where
  up := rfl
  file := rfl
  offset := rfl
  room := by norm_num
  map := by simp
  nodup := by simp
  backed _ := rfl
  index := rfl
  fits := by simp
  holds _ := rfl

theorem Sound.written (sound : f.Sound latest) : Written f.shard latest :=
  ⟨by rw [sound.offset, sound.file], by rw [sound.file]; exact sound.holds⟩

theorem Sound.put (sound : f.Sound latest) {key value : Bytes} (keyFits : key.length < 2 ^ 32)
    (valueFits : value.length < 2 ^ 32) (done : f.put key value = some f') :
    f'.Sound (Function.update latest key (some value)) := by
  rw [Folder.put, if_pos sound.up, Option.map_eq_some_iff] at done
  obtain ⟨s, flush, rfl⟩ := done
  have flushed := Shard.flush_eq_some flush
  have small : ∀ r ∈ [(⟨key, value, true⟩ : WriteRequest)], r.value.length < 2 ^ 32 := by simpa using valueFits
  have next := sound.written.flush small flush
  have room := flushed.room
  refine ⟨sound.up, rfl, next.offset, by rwa [flushed.values, List.length_append], ?_, ?_,
    sound.backed.flush flush, ?_, ?_, next.holds⟩
  · rw [flushed.memory.1, flushed.memory.2]
    exact Shard.setEntry_keys sound.map key _
  · rw [flushed.memory.2]
    exact Shard.setEntry_nodup sound.map sound.nodup key _
  · rw [flushed.index, indexBytes_append, sound.index]
  · intro ie inside
    rw [flushed.index] at inside
    rcases List.mem_append.mp inside with old | new
    · exact sound.fits ie old
    · have request : Small [(⟨key, value, true⟩ : WriteRequest)] := by simpa [Small] using ⟨keyFits, valueFits⟩
      exact Small.fits request ie new

theorem Sound.reopen (sound : f.Sound latest) :
    { f with shard := Shard.reopen f.shard.indexFile f.values }.Sound latest := by
  have replayed := Shard.reopen_replayed f.shard.indexFile f.values
  have backed : Backed (Shard.reopen f.shard.indexFile f.values) latest := by
    rw [← sound.file]
    exact sound.written.reopen_backed
  refine ⟨sound.up, replayed.values, replayed.offset, sound.room, replayed.keys, replayed.nodup, backed,
    ?_, ?_, ?_⟩
  · rw [replayed.index]
    exact sound.index
  · rw [replayed.index]
    exact sound.fits
  · rw [replayed.index]
    exact sound.holds

end Folder

inductive FolderEvent where
  | put (key value : Bytes)
  | reopen

def Folder.step (f : Folder) : FolderEvent → Folder
  | .put key value => (f.put key value).getD f
  | .reopen => ((openShard f.index f.values).1.map (fun shard => { f with shard })).getD f

def FolderEvent.Narrow : FolderEvent → Prop
  | .put key value => key.length < 2 ^ 32 ∧ value.length < 2 ^ 32
  | .reopen => True

namespace Folder

variable {f : Folder} {latest : Bytes → Option Bytes}

theorem Sound.step (sound : f.Sound latest) {e : FolderEvent} (narrow : e.Narrow) :
    ∃ latest', (f.step e).Sound latest' := by
  cases e with
  | put key value =>
    cases done : f.put key value with
    | none => exact ⟨latest, by rwa [Folder.step, done]⟩
    | some f' => exact ⟨_, by rw [Folder.step, done]; exact sound.put narrow.1 narrow.2 done⟩
  | reopen =>
    refine ⟨latest, ?_⟩
    have opened := openShard_indexBytes sound.fits f.values
    rw [← sound.index] at opened
    rw [Folder.step, opened]
    exact sound.reopen

theorem sound_run (events : List FolderEvent) (narrow : ∀ e ∈ events, e.Narrow) :
    ∃ latest, (Runs.exec Folder.step {} events).Sound latest :=
  Runs.invariant _ (fun f => ∃ latest, f.Sound latest) (fun _ _ ⟨_, sound⟩ ok => sound.step ok)
    ⟨_, sound_empty⟩ (Runs.along_of_forall Folder.step narrow)

end Folder

def Steady (s : Shard) (order : List Bytes) : Prop :=
  ∀ n key, (Runs.exec Shard.load s (order.take n)).Finds key

section

variable {s : Shard} {latest : Bytes → Option Bytes} {order : List Bytes}

theorem Steady.take (steady : Steady s order) (n : Nat) : Steady s (order.take n) := by
  intro m key
  rw [List.take_take]
  exact steady _ key

theorem Steady.along (steady : Steady s order) : Runs.Along Shard.load Shard.Finds s order := by
  induction order generalizing s with
  | nil => trivial
  | cons key rest ih => exact ⟨steady 0 key, ih (fun n other => steady (n + 1) other)⟩

/-- With every value in memory there is nothing to find. -/
theorem Resident.steady (resident : Resident s latest) (order : List Bytes) : Steady s order := by
  have still (order : List Bytes) : Runs.exec Shard.load s order = s := by
    induction order with
    | nil => rfl
    | cons key rest ih =>
      rw [Runs.exec, List.foldl_cons, Shard.load, resident.get_eq]
      exact ih
  intro n key ve found unloaded
  rw [still] at found
  have here := resident key
  simp only [Option.mem_def] at found
  rw [found, Option.map_some, unloaded.1] at here
  cases last : latest key with
  | none => rw [last] at here; cases here
  | some value => rw [last] at here; cases here

structure SameFiles (s s' : Shard) : Prop where
  values : s'.valueFile = s.valueFile
  index : s'.indexFile = s.indexFile
  offset : s'.valueOffset = s.valueOffset
  keys : s'.keys = s.keys

theorem Backed.load_files {key : Bytes} (backed : Backed s latest) (finds : s.Finds key) :
    SameFiles s (s.load key) := by
  cases last : latest key with
  | none =>
    have absent : s.data key = none := by
      simpa [last] using backed.isSome_iff key
    have still : s.load key = s := by simp only [Shard.load, Shard.get, absent]
    rw [still]
    exact ⟨rfl, rfl, rfl, rfl⟩
  | some value =>
    obtain ⟨ve, position, found, read⟩ := backed.get_eq finds last
    rw [Shard.load, read]
    refine ⟨rfl, rfl, rfl, ?_⟩
    simp only [Shard.setEntry, found, Option.isSome_some, if_true]

theorem Backed.loads_files (backed : Backed s latest) (finds : Runs.Along Shard.load Shard.Finds s order) :
    SameFiles s (Runs.exec Shard.load s order) := by
  induction order generalizing s with
  | nil => exact ⟨rfl, rfl, rfl, rfl⟩
  | cons key rest ih =>
    have first := backed.load_files finds.1
    have later := ih (backed.find finds.1).2 finds.2
    exact ⟨later.values.trans first.values, later.index.trans first.index, later.offset.trans first.offset,
      later.keys.trans first.keys⟩

end

namespace Folder

variable {f : Folder} {latest : Bytes → Option Bytes} {order : List Bytes}

/-- What a shard is expected to do after a cleanup that returned an error: it answers every `get`, and
a `put` is read back from its files together with everything else. -/
structure Works (f : Folder) (latest : Bytes → Option Bytes) : Prop where
  gets : ∀ key, f.get key = some (.ok (latest key))
  puts : ∀ key value, key.length < 2 ^ 32 → value.length < 2 ^ 32 →
    f.shard.valueFile.length + value.length < 2 ^ 63 →
    ∃ f', f.put key value = some f' ∧ ReadsBack f'.index f'.values (Function.update latest key (some value))

theorem Sound.visited (sound : f.Sound latest) (all : order.Perm f.shard.keys) :
    ∀ key ∈ order, (latest key).isSome := fun key inside =>
  (sound.backed.isSome_iff key).mp ((sound.map key).mp (all.mem_iff.mp inside))

theorem Sound.works (sound : f.Sound latest) (finds : ∀ key, f.shard.Finds key) : f.Works latest where
  gets key := by
    rw [Folder.get, if_pos sound.up, (sound.backed.find (finds key)).1]
  puts key value keyFits valueFits room := by
    have flush : (f.shard.flush [⟨key, value, true⟩]).isSome := by
      have wide : ¬2 ^ 63 ≤ f.shard.valueFile.length + [value].flatten.length := by simpa using room
      rw [Shard.flush, Shard.writeValue, List.map_singleton, if_neg wide]
      rfl
    obtain ⟨s, flush⟩ := Option.isSome_iff_exists.mp flush
    have done : f.put key value = some { f with
        shard := s
        index := f.index ++ indexBytes (Shard.encodeBatch f.shard.valueOffset [⟨key, value, true⟩])
        values := s.valueFile } := by
      rw [Folder.put, if_pos sound.up, flush, Option.map_some]
    have next := sound.put keyFits valueFits done
    refine ⟨_, done, ?_⟩
    rw [next.index]
    exact readsBack_of_holds next.fits next.holds

/-- The folder of a cleanup that was interrupted after the first `n` keys. -/
def interrupted (f : Folder) (order : List Bytes) (n : Nat) (tempIndex tempValue : Bytes) : Folder :=
  { f with
    shard := Runs.exec Shard.load f.shard (order.take n)
    values := (Runs.exec Shard.load f.shard (order.take n)).valueFile
    tempIndex
    tempValue }

theorem Sound.interrupted (sound : f.Sound latest) (steady : Steady f.shard order) (n : Nat)
    (tempIndex tempValue : Bytes) : (f.interrupted order n tempIndex tempValue).Sound latest := by
  have finds := (steady.take n).along
  have backed := sound.backed.loads finds
  have same := sound.backed.loads_files finds
  have values : (Runs.exec Shard.load f.shard (order.take n)).valueFile = f.values :=
    same.values.trans sound.file
  refine ⟨sound.up, rfl, ?_, ?_, fun key => ?_, ?_, backed, ?_, ?_, ?_⟩
  · show (Runs.exec Shard.load f.shard (order.take n)).valueOffset = _
    rw [same.offset, sound.offset, ← values]
    rfl
  · show (Runs.exec Shard.load f.shard (order.take n)).valueFile.length < 2 ^ 63
    rw [values]
    exact sound.room
  · show key ∈ (Runs.exec Shard.load f.shard (order.take n)).keys ↔ _
    rw [same.keys, sound.map, sound.backed.isSome_iff, ← backed.isSome_iff]
    rfl
  · show (Runs.exec Shard.load f.shard (order.take n)).keys.Nodup
    rw [same.keys]
    exact sound.nodup
  · show f.index = indexBytes (Runs.exec Shard.load f.shard (order.take n)).indexFile
    rw [same.index, sound.index]
  · show ∀ ie ∈ (Runs.exec Shard.load f.shard (order.take n)).indexFile, Fits ie
    rw [same.index]
    exact sound.fits
  · show Holds (Runs.exec Shard.load f.shard (order.take n)).indexFile
      (Runs.exec Shard.load f.shard (order.take n)).valueFile latest
    rw [same.index, values]
    exact sound.holds

theorem writeCleanupData_shard (plan : Nat → Option Nat) (s : Shard) (tempIndex tempValue : Bytes)
    (order : List Bytes) : ∃ n, (writeCleanupData plan s tempIndex tempValue order).2.shard =
      Runs.exec Shard.load s (order.take n) := by
  rw [writeCleanupData, andThen_shard (finish_shard plan)]
  exact visitAll_shard order _

theorem filled_eq {c : Cleaning} {n : Nat} (shard : c.shard = Runs.exec Shard.load f.shard (order.take n)) :
    f.filled c = f.interrupted order n c.tempIndex c.tempValue := by
  rw [filled, interrupted, shard]

/-- A step that fails while the live files are open leaves them, and the shard as far as it was loaded. -/
theorem doCleanup_beforeClose (file : f.shard.valueFile = f.values) {fault : CleanupFault}
    (early : fault.beforeClose = true) (failed : (f.doCleanup order (some fault)).1 ≠ .ok ()) :
    ∃ n tempIndex tempValue, (f.doCleanup order (some fault)).2 = f.interrupted order n tempIndex tempValue := by
  by_cases create : some fault = some .createIndex ∨ some fault = some .createValue
  · refine ⟨0, f.tempIndex, f.tempValue, ?_⟩
    rw [doCleanup, if_pos create, interrupted, List.take_zero, Runs.exec_nil, file]
  · obtain ⟨n, shard⟩ := writeCleanupData_shard (writePlan (some fault)) f.shard f.tempIndex f.tempValue order
    rw [doCleanup, if_neg create] at failed ⊢
    generalize writeCleanupData (writePlan (some fault)) f.shard f.tempIndex f.tempValue order = result at *
    obtain ⟨outcome, c⟩ := result
    refine ⟨n, c.tempIndex, c.tempValue, ?_⟩
    cases outcome with
    | error e => exact filled_eq shard
    | ok _ =>
      -- everything was written, so it is one of the two calls of `Sync`
      cases fault with
      | syncValue => exact filled_eq shard
      | syncIndex => exact filled_eq shard
      | write n k => exact absurd rfl failed
      | createIndex => exact absurd (.inl rfl) create
      | createValue => exact absurd (.inr rfl) create
      | close | renameIndex | renameValue | reopen => cases early

theorem doCleanup_long {fault : Option CleanupFault} (writes : writePlan fault = never)
    (created : ¬(fault = some .createIndex ∨ fault = some .createValue)) (sound : f.Sound latest)
    (all : order.Perm f.shard.keys) (finds : Runs.Along Shard.load Shard.Finds f.shard order)
    (long : ∃ key ∈ order, cleanupIndexBufferSize - 16 < key.length) :
    (f.doCleanup order fault).1 = .error .outOfRange := by
  have stopped := writeCleanupData_long sound.backed (sound.visited all) finds long f.tempIndex f.tempValue
  rw [doCleanup, if_neg created, writes]
  generalize writeCleanupData never f.shard f.tempIndex f.tempValue order = result at stopped
  obtain ⟨outcome, c⟩ := result
  obtain rfl : outcome = .error .outOfRange := stopped
  rfl

theorem doCleanup_afterClose {fault : CleanupFault} (late : fault.beforeClose = false) {c : Cleaning}
    (written : writeCleanupData never f.shard f.tempIndex f.tempValue order = (.ok (), c)) :
    (f.doCleanup order (some fault)).2.isOpen = false ∧ (f.doCleanup order (some fault)).2.shard = c.shard := by
  cases fault with
  | createIndex | createValue | write _ _ | syncValue | syncIndex => cases late
  | close | renameIndex | renameValue | reopen =>
    simp [doCleanup, writePlan, written, swapCleanupFiles, updateShardAfterCleanup, filled]

/-- A failed cleanup leaves a working shard exactly if it failed while the live files were open. -/
theorem failed_cleanup_works_iff (f : Folder) (latest : Bytes → Option Bytes) (sound : f.Sound latest)
    (order : List Bytes) (all : order.Perm f.shard.keys) (steady : Steady f.shard order) (fault : CleanupFault)
    (e : CleanupError) (failed : (f.doCleanup order (some fault)).1 = .error e) (returned : e ≠ .outOfRange) :
    (f.doCleanup order (some fault)).2.Works latest ↔ fault.beforeClose = true := by
  constructor
  · intro works
    by_contra late
    rw [Bool.not_eq_true] at late
    have writes : writePlan (some fault) = never ∧
        ¬(some fault = some .createIndex ∨ some fault = some .createValue) := by
      cases fault with
      | createIndex | createValue | write _ _ | syncValue | syncIndex => cases late
      | close | renameIndex | renameValue | reopen => simp [writePlan]
    by_cases long : ∃ key ∈ order, cleanupIndexBufferSize - 16 < key.length
    · rw [doCleanup_long writes.1 writes.2 sound all steady.along long] at failed
      exact returned (Except.error.inj failed).symm
    · push Not at long
      obtain ⟨c, written, -, -, -, -, shard⟩ := writeCleanupData_never sound.backed (sound.visited all)
        steady.along (fun key inside => walIndexLen_le.mpr (long key inside)) f.tempIndex f.tempValue
      obtain ⟨closed, left⟩ := doCleanup_afterClose late written
      have file : c.shard.valueFile = f.values := by
        rw [shard, (sound.backed.loads_files steady.along).values, sound.file]
      have room : c.shard.valueFile.length + ([] : Bytes).length < 2 ^ 63 := by
        rw [file]
        exact sound.room
      obtain ⟨f', put, -⟩ := works.puts [] [] (by norm_num) (by norm_num) (by rw [left]; exact room)
      rw [Folder.put, closed] at put
      cases put
  · intro early
    obtain ⟨n, tempIndex, tempValue, result⟩ :=
      doCleanup_beforeClose sound.file early (by rw [failed]; simp)
    rw [result]
    exact (sound.interrupted steady n tempIndex tempValue).works (steady n)

end Folder

theorem Resident.put {f f' : Folder} {latest : Bytes → Option Bytes} (resident : Resident f.shard latest)
    {key value : Bytes} (done : f.put key value = some f') :
    Resident f'.shard (Function.update latest key (some value)) := by
  rw [Folder.put] at done
  split at done
  · obtain ⟨s, flush, rfl⟩ := Option.map_eq_some_iff.mp done
    intro other
    have memory : s.data = (f.shard.putInternal key value).data := (Shard.flush_eq_some flush).memory.1
    show (s.data other).map ValueEntry.payload = _
    rw [memory, Shard.putInternal, Shard.setEntry_data, Function.update_apply]
    split
    · rfl
    · exact resident other
  · cases done

def putAll (f : Folder) : List (Bytes × Bytes) → Option Folder
  | [] => some f
  | (key, value) :: rest => (f.put key value).bind (fun f' => putAll f' rest)

def latestPuts (latest : Bytes → Option Bytes) : List (Bytes × Bytes) → Bytes → Option Bytes
  | [] => latest
  | (key, value) :: rest => latestPuts (Function.update latest key (some value)) rest

theorem putAll_sound {puts : List (Bytes × Bytes)}
    (small : ∀ p ∈ puts, p.1.length < 2 ^ 32 ∧ p.2.length < 2 ^ 32) {f f' : Folder}
    {latest : Bytes → Option Bytes} (sound : f.Sound latest) (resident : Resident f.shard latest)
    (done : putAll f puts = some f') :
    f'.Sound (latestPuts latest puts) ∧ Resident f'.shard (latestPuts latest puts) := by
  induction puts generalizing f latest with
  | nil =>
    cases done
    exact ⟨sound, resident⟩
  | cons p rest ih =>
    obtain ⟨mid, put, later⟩ := Option.bind_eq_some_iff.mp done
    obtain ⟨keyFits, valueFits⟩ := small p (by simp)
    exact ih (fun q inside => small q (by simp [inside])) (sound.put keyFits valueFits put)
      (resident.put put) later

def rewrites : List (Bytes × Bytes) := [([97], [1]), ([98], [2]), ([97], [3])]

def rewritten : Folder := (putAll {} rewrites).getD {}

theorem rewritten_sound : rewritten.Sound (latestPuts (fun _ => none) rewrites) ∧
    Resident rewritten.shard (latestPuts (fun _ => none) rewrites) :=
  putAll_sound (by decide) Folder.sound_empty (fun _ => rfl) rfl

/-- Syncing the temp index file fails. -/
theorem unsynced_cleanup_works :
    (rewritten.doCleanup [[97], [98]] (some .syncIndex)).1 = .error .sync ∧
      (rewritten.doCleanup [[97], [98]] (some .syncIndex)).2.Works (latestPuts (fun _ => none) rewrites) := by
  have failed : (rewritten.doCleanup [[97], [98]] (some .syncIndex)).1 = .error .sync := by decide +kernel
  exact ⟨failed, (Folder.failed_cleanup_works_iff rewritten _ rewritten_sound.1 [[97], [98]] (by decide +kernel)
    (rewritten_sound.2.steady _) .syncIndex .sync failed (by decide)).mpr rfl⟩

/-- The second rename fails: nothing can be written any more, and the new index over the old values
brings back a value that was overwritten. -/
theorem half_renamed_cleanup_fails :
    (rewritten.doCleanup [[97], [98]] (some .renameValue)).1 = .error .rename ∧
      ((rewritten.doCleanup [[97], [98]] (some .renameValue)).2.put [99] [4]).isNone ∧
      latestPuts (fun _ => none) rewrites [97] = some [3] ∧
      (openShard (rewritten.doCleanup [[97], [98]] (some .renameValue)).2.index
        (rewritten.doCleanup [[97], [98]] (some .renameValue)).2.values).1.map (fun s => (s.get [97]).1) =
          some (.ok (some [1])) := by
  decide +kernel

end Engine

end Kvgo

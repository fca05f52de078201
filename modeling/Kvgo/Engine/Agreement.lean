import Kvgo.Engine.Committer

/-! The map of a shard against its files. A `putAsync` changes the map before its request is
in the channel, a `put` after its request is in the files; the two orders can differ where
calls on one key overlap, and only there. -/

namespace Kvgo

namespace Engine

/-! ### Writes to one key -/

def forKey (key : Bytes) (writes : List WriteRequest) : List WriteRequest :=
  writes.filter (fun r => r.key = key)

@[simp] theorem forKey_append (key : Bytes) (front back : List WriteRequest) :
    forKey key (front ++ back) = forKey key front ++ forKey key back := List.filter_append ..

theorem forKey_filter (key : Bytes) (writes : List WriteRequest) :
    forKey key (writes.filter WriteRequest.sync) = (forKey key writes).filter WriteRequest.sync :=
  List.filter_comm ..

theorem forKey_eq_nil {key : Bytes} {writes : List WriteRequest} :
    forKey key writes = [] ↔ ∀ r ∈ writes, r.key ≠ key := by
  simp [forKey, List.filter_eq_nil_iff]

theorem forKey_other {key : Bytes} {r : WriteRequest} (other : r.key ≠ key) : forKey key [r] = [] := by
  simp [forKey, other]

theorem latestOf_forKey (before : Bytes → Option Bytes) (writes : List WriteRequest) (key : Bytes) :
    latestOf before writes key = latestOf before (forKey key writes) key := by
  induction writes using List.reverseRecOn with
  | nil => rfl
  | append_singleton writes r ih =>
    have unfolded : latestOf before (writes ++ [r]) =
        Function.update (latestOf before writes) r.key (some r.value) := List.foldl_append
    rw [unfolded, forKey_append]
    by_cases same : r.key = key
    · have kept : forKey key [r] = [r] := by simp [forKey, same]
      rw [kept, ← same, Function.update_self]
      simp [latestOf]
    · rw [forKey_other same, List.append_nil, Function.update_of_ne (Ne.symm same), ih]

/-! ### The files and the map -/

theorem Backed.contents {s : Shard} {latest : Bytes → Option Bytes} (backed : Backed s latest) :
    s.contents = latest := by
  funext key
  have here := backed key
  unfold Shard.contents
  cases found : s.data key with
  | none =>
    rw [found] at here
    exact here.symm
  | some ve =>
    simp only [found] at here
    obtain ⟨value, last, held | ⟨lazy, denotes⟩⟩ := here
    · rw [Option.map_some, held, last]
      rfl
    · have size : ve.size = value.length := denotes.size
      rw [Option.map_some, lazy, last, size]
      exact congrArg some denotes.slice

theorem Backed.putInternal {s : Shard} {latest : Bytes → Option Bytes} (backed : Backed s latest)
    (key value : Bytes) :
    Backed (s.putInternal key value) (Function.update latest key (some value)) :=
  backed.set key value rfl

theorem Backed.of_data {s s' : Shard} {latest : Bytes → Option Bytes} (backed : Backed s latest)
    (data : s'.data = s.data) {more : Bytes} (values : s'.valueFile = s.valueFile ++ more) :
    Backed s' latest := by
  intro key
  have here := backed key
  rw [data]
  cases found : s.data key with
  | none => simpa [found] using here
  | some ve =>
    simp only [found] at here ⊢
    obtain ⟨value, last, held⟩ := here
    refine ⟨value, last, held.imp_right (fun ⟨lazy, denotes⟩ => ⟨lazy, ?_⟩)⟩
    rw [values]
    exact denotes.grow more

theorem Shard.writeBatch_some {s s' : Shard} {batch : List WriteRequest}
    (wrote : s.writeBatch batch = some s') :
    s.valueFile.length + (batch.map WriteRequest.value).flatten.length < 2 ^ 63 ∧
      s'.data = s.data ∧ s'.indexFile = s.indexFile ++ Shard.encodeBatch s.valueOffset batch ∧
      s'.valueFile = s.valueFile ++ (batch.map WriteRequest.value).flatten ∧
      s'.valueOffset = s.valueOffset + (batch.map WriteRequest.value).flatten.length := by
  simp only [Shard.writeBatch, Shard.writeValue, Option.bind_eq_bind, Option.bind_eq_some_iff,
    Option.some.injEq] at wrote
  obtain ⟨mid, value, rfl⟩ := wrote
  split at value
  · cases value
  · next room =>
    cases value
    exact ⟨by omega, rfl, rfl, rfl, rfl⟩

theorem Written.writeBatch {s s' : Shard} {latest : Bytes → Option Bytes} (written : Written s latest)
    {batch : List WriteRequest} (small : ∀ r ∈ batch, r.value.length < 2 ^ 32)
    (wrote : s.writeBatch batch = some s') : Written s' (latestOf latest batch) := by
  obtain ⟨room, _, index, values, offset⟩ := Shard.writeBatch_some wrote
  refine ⟨by rw [offset, values, written.offset, List.length_append], ?_⟩
  rw [index, values, written.offset]
  exact written.holds.batch small room

theorem Written.putInternal {s : Shard} {latest : Bytes → Option Bytes} (written : Written s latest)
    (key value : Bytes) : Written (s.putInternal key value) latest :=
  ⟨written.offset, written.holds⟩

/-! ### Calls that do not overlap -/

namespace Committer

/-- Calls in progress: at their `select`, or waiting for the answer to their request. -/
def openCalls (c : Committer) : List WriteRequest :=
  (c.acking ++ c.buf ++ c.reqCh).filter WriteRequest.sync ++ c.sending

def isWriting : CommitEvent → Bool
  | .begin _ | .send _ | .ack | .receive | .tick => true
  | _ => false

/-- No call on the key begins while another is in progress. The lengths of a key and a value have to fit the
fields of their record, and the files have room. -/
def ApartOn (key : Bytes) (c : Committer) : CommitEvent → Prop
  | .begin r =>
    (r.key = key → ∀ q ∈ c.openCalls, q.key ≠ key) ∧ (r.key.length < 2 ^ 32 ∧ r.value.length < 2 ^ 32) ∧
      c.HasRoom
  | _ => c.HasRoom

instance (key : Bytes) (c : Committer) (e : CommitEvent) : Decidable (ApartOn key c e) :=
  match e with
  | .begin r => inferInstanceAs (Decidable ((r.key = key → ∀ q ∈ c.openCalls, q.key ≠ key) ∧ _ ∧ _))
  | .send _ | .giveUp _ | .ack | .receive | .tick | .compact _ | .notice | .drained | .finish
  | .cancel | .stop => inferInstanceAs (Decidable c.HasRoom)

def Quiet (c : Committer) : Prop := c.sending = [] ∧ c.reqCh = [] ∧ c.buf = [] ∧ c.acking = []

instance (c : Committer) : Decidable c.Quiet := inferInstanceAs (Decidable (_ ∧ _ ∧ _ ∧ _))

/-- The three orders of the writes to a key: of the calls, of the files and of the map. -/
structure InStep (key : Bytes) (c : Committer) : Prop where
  logged : forKey key c.begun = forKey key (c.flushed ++ c.buf ++ c.reqCh ++ c.sending)
  applied : forKey key c.begun = forKey key (c.applied ++ (c.acking ++ c.buf ++ c.reqCh ++
    c.sending).filter WriteRequest.sync)
  alone : (forKey key c.openCalls).length ≤ 1

structure Stored (before : Bytes → Option Bytes) (c : Committer) : Prop where
  memory : Backed c.shard (latestOf before c.applied)
  files : Written c.shard (latestOf before c.flushed)
  small : ∀ r ∈ c.buf ++ c.reqCh ++ c.sending, r.key.length < 2 ^ 32 ∧ r.value.length < 2 ^ 32
  running : c.stage = .running
  fits : ∀ ie ∈ c.shard.indexFile, Fits ie

theorem Stored.start {s : Shard} {before : Bytes → Option Bytes} (memory : Backed s before)
    (files : Written s before) (fits : ∀ ie ∈ s.indexFile, Fits ie) : Stored before (start s) :=
  ⟨memory, files, by simp [Committer.start], rfl, fits⟩

theorem InStep.start (key : Bytes) (s : Shard) : InStep key (start s) :=
  ⟨rfl, rfl, by simp [Committer.start, openCalls, forKey]⟩

theorem eraseIdx_split {α : Type*} {xs : List α} {i : Nat} {x : α} (here : xs[i]? = some x) :
    ∃ front back, xs = front ++ x :: back ∧ xs.eraseIdx i = front ++ back := by
  obtain ⟨inside, rfl⟩ := List.getElem?_eq_some_iff.mp here
  refine ⟨xs.take i, xs.drop (i + 1), ?_, List.eraseIdx_eq_take_drop_succ xs i⟩
  rw [← List.drop_eq_getElem_cons inside, List.take_append_drop]

/-! #### Each event -/

theorem HasRoom.buffer {c : Committer} (room : c.HasRoom) :
    c.shard.valueFile.length + (c.buf.map WriteRequest.value).flatten.length < 2 ^ 63 := by
  unfold HasRoom at room
  rw [List.map_append, List.flatten_append, List.length_append] at room
  omega

theorem Stored.flush {before : Bytes → Option Bytes} {c : Committer} (good : Stored before c)
    (room : c.shard.valueFile.length + (c.buf.map WriteRequest.value).flatten.length < 2 ^ 63) :
    Stored before c.flush := by
  obtain ⟨s, wrote⟩ := writeBatch_eq room
  obtain ⟨_, data, index, values, _⟩ := Shard.writeBatch_some wrote
  have files := good.files.writeBatch (fun r inside => (good.small r (by simp [inside])).2) wrote
  rw [Committer.flush, wrote]
  refine ⟨good.memory.of_data data values, ?_, fun r inside => good.small r ?_, good.running, fun ie inside => ?_⟩
  · simpa [latestOf] using files
  · simp only [List.nil_append] at inside
    rw [List.append_assoc]
    exact List.mem_append_right _ inside
  · rw [index] at inside
    rcases List.mem_append.mp inside with old | new
    · exact good.fits ie old
    · exact encodeBatch_fits (fun r waits => (good.small r (by simp [waits])).1) ie new

theorem InStep.flush {key : Bytes} {c : Committer} (good : InStep key c) (idle : c.acking = [])
    (room : c.shard.valueFile.length + (c.buf.map WriteRequest.value).flatten.length < 2 ^ 63) :
    InStep key c.flush := by
  obtain ⟨s, wrote⟩ := writeBatch_eq room
  have applied := good.applied
  have alone := good.alone
  rw [openCalls, idle] at alone
  rw [idle] at applied
  rw [Committer.flush, wrote]
  exact ⟨by simpa using good.logged, by simpa using applied, by simpa [openCalls] using alone⟩

theorem Stored.flushBuffered {before : Bytes → Option Bytes} {c : Committer} (good : Stored before c)
    (room : c.HasRoom) : Stored before c.flushBuffered := by
  unfold Committer.flushBuffered
  split
  · exact good
  · exact good.flush room.buffer

theorem InStep.flushBuffered {key : Bytes} {c : Committer} (good : InStep key c)
    (idle : c.acking = []) (room : c.HasRoom) : InStep key c.flushBuffered := by
  unfold Committer.flushBuffered
  split
  · exact good
  · exact good.flush idle room.buffer

def taken (c : Committer) (r : WriteRequest) (rest : List WriteRequest) : Committer :=
  { c with reqCh := rest, buf := c.buf ++ [r] }

theorem receive_cases (c : Committer) : c.receive = c ∨ ∃ r rest, c.reqCh = r :: rest ∧
    (c.receive = c.taken r rest ∨ c.receive = (c.taken r rest).flush) := by
  unfold Committer.receive
  split
  · exact .inl rfl
  · next r rest waiting =>
    split
    · refine .inr ⟨r, rest, waiting, ?_⟩
      unfold appendToBatch
      dsimp only
      split
      · exact .inr rfl
      · exact .inl rfl
    · exact .inl rfl

theorem HasRoom.taken {c : Committer} (room : c.HasRoom) {r : WriteRequest} {rest : List WriteRequest}
    (waiting : c.reqCh = r :: rest) : (c.taken r rest).HasRoom := by
  unfold HasRoom at room ⊢
  rw [waiting, List.append_cons] at room
  exact room

theorem Stored.taken {before : Bytes → Option Bytes} {c : Committer} (good : Stored before c)
    {r : WriteRequest} {rest : List WriteRequest} (waiting : c.reqCh = r :: rest) :
    Stored before (c.taken r rest) := by
  have small := good.small
  rw [waiting, List.append_cons] at small
  exact ⟨good.memory, good.files, small, good.running, good.fits⟩

theorem InStep.taken {key : Bytes} {c : Committer} (good : InStep key c)
    {r : WriteRequest} {rest : List WriteRequest} (waiting : c.reqCh = r :: rest) :
    InStep key (c.taken r rest) := by
  have logged := good.logged
  have applied := good.applied
  have alone := good.alone
  rw [waiting] at logged applied
  rw [openCalls, waiting] at alone
  refine ⟨?_, ?_, ?_⟩
  · simpa only [Committer.taken, List.append_assoc, List.singleton_append] using logged
  · simpa only [Committer.taken, List.append_assoc, List.singleton_append] using applied
  · simpa only [Committer.taken, openCalls, List.append_assoc, List.singleton_append] using alone

theorem Stored.receive {before : Bytes → Option Bytes} {c : Committer} (good : Stored before c)
    (room : c.HasRoom) : Stored before c.receive := by
  rcases receive_cases c with same | ⟨r, rest, waiting, moved | flushed⟩
  · rw [same]; exact good
  · rw [moved]; exact good.taken waiting
  · rw [flushed]; exact (good.taken waiting).flush (room.taken waiting).buffer

theorem InStep.receive {key : Bytes} {c : Committer} (good : InStep key c) (idle : c.acking = [])
    (room : c.HasRoom) : InStep key c.receive := by
  rcases receive_cases c with same | ⟨r, rest, waiting, moved | flushed⟩
  · rw [same]; exact good
  · rw [moved]; exact good.taken waiting
  · rw [flushed]; exact (good.taken waiting).flush idle (room.taken waiting).buffer

theorem Stored.ack {before : Bytes → Option Bytes} {c : Committer} (good : Stored before c) :
    Stored before c.ack := by
  unfold Committer.ack
  split
  · exact good
  · next r rest waiting =>
    split
    · refine ⟨?_, good.files.putInternal _ _, good.small, good.running, good.fits⟩
      simpa [latestOf] using good.memory.putInternal r.key r.value
    · exact ⟨good.memory, good.files, good.small, good.running, good.fits⟩

theorem InStep.ack {key : Bytes} {c : Committer} (good : InStep key c) : InStep key c.ack := by
  unfold Committer.ack
  split
  · exact good
  · next r rest waiting =>
    have applied := good.applied
    have alone := good.alone
    rw [openCalls, waiting] at alone
    rw [waiting] at applied
    split
    · next sync =>
      refine ⟨good.logged, ?_, ?_⟩
      · simpa [sync] using applied
      · refine le_trans ?_ alone
        simp only [openCalls, List.cons_append, List.filter_cons, sync, if_true]
        exact ((List.sublist_cons_self r _).filter _).length_le
    · next async =>
      refine ⟨good.logged, ?_, ?_⟩
      · simpa [async] using applied
      · simpa [openCalls, async] using alone

theorem Stored.begin {before : Bytes → Option Bytes} {c : Committer} (good : Stored before c)
    {r : WriteRequest} (small : r.key.length < 2 ^ 32 ∧ r.value.length < 2 ^ 32) : Stored before (c.begin r) := by
  have fits : ∀ q ∈ c.buf ++ c.reqCh ++ (c.sending ++ [r]), q.key.length < 2 ^ 32 ∧ q.value.length < 2 ^ 32 := by
    intro q inside
    rw [← List.append_assoc] at inside
    rcases List.mem_append.mp inside with old | new
    · exact good.small q old
    · rw [List.mem_singleton.mp new]; exact small
  unfold Committer.begin
  split
  · split
    · exact good
    · exact ⟨good.memory, good.files, fits, good.running, good.fits⟩
  · refine ⟨?_, good.files.putInternal _ _, fits, good.running, good.fits⟩
    simpa [latestOf] using good.memory.putInternal r.key r.value

theorem forKey_openCalls {key : Bytes} {c : Committer} (none : ∀ q ∈ c.openCalls, q.key ≠ key) :
    forKey key c.sending = [] ∧
      forKey key ((c.acking ++ c.buf ++ c.reqCh ++ c.sending).filter WriteRequest.sync) = [] := by
  have sending : forKey key c.sending = [] :=
    forKey_eq_nil.mpr (fun q inside => none q (List.mem_append_right _ inside))
  refine ⟨sending, ?_⟩
  rw [List.filter_append, forKey_append]
  refine List.append_eq_nil_iff.mpr ⟨?_, ?_⟩
  · exact forKey_eq_nil.mpr (fun q inside => none q (List.mem_append_left _ inside))
  · rw [forKey_filter, sending, List.filter_nil]

theorem InStep.begin {key : Bytes} {c : Committer} (good : InStep key c) {r : WriteRequest}
    (apart : r.key = key → ∀ q ∈ c.openCalls, q.key ≠ key) : InStep key (c.begin r) := by
  have alone : (forKey key (c.openCalls ++ [r])).length ≤ 1 := by
    by_cases same : r.key = key
    · have none : forKey key c.openCalls = [] := forKey_eq_nil.mpr (apart same)
      rw [forKey_append, none, List.nil_append]
      exact List.length_filter_le _ _
    · rw [forKey_append, forKey_other same, List.append_nil]
      exact good.alone
  have opened : openCalls { c with sending := c.sending ++ [r] } = c.openCalls ++ [r] := by
    simp [openCalls]
  unfold Committer.begin
  split
  · next sync =>
    split
    · exact good
    · refine ⟨?_, ?_, by rw [← opened] at alone; exact alone⟩
      · have logged := good.logged
        simp only [forKey_append] at logged ⊢
        rw [logged, List.append_assoc]
      · have applied := good.applied
        simp only [forKey_append, List.filter_append, List.append_assoc] at applied ⊢
        rw [applied]
        simp [sync]
  · next async =>
    refine ⟨?_, ?_, by rw [← opened] at alone; exact alone⟩
    · have logged := good.logged
      simp only [forKey_append] at logged ⊢
      rw [logged, List.append_assoc]
    · have applied := good.applied
      have dropped : [r].filter WriteRequest.sync = [] := by simp [async]
      simp only
      rw [← List.append_assoc _ c.sending [r], List.filter_append, dropped, List.append_nil]
      rw [forKey_append] at applied ⊢
      rw [forKey_append, forKey_append]
      by_cases same : r.key = key
      · rw [(forKey_openCalls (apart same)).2, List.append_nil] at applied ⊢
        rw [applied]
      · rw [forKey_other same, List.append_nil, List.append_nil, applied]

theorem Stored.send {before : Bytes → Option Bytes} {c : Committer} (good : Stored before c)
    (position : Nat) : Stored before (c.send position) := by
  unfold Committer.send
  split
  · exact good
  · next r here =>
    split
    · refine ⟨good.memory, good.files, fun q inside => good.small q ?_, good.running, good.fits⟩
      rcases List.mem_append.mp inside with old | still
      · rw [← List.append_assoc] at old
        rcases List.mem_append.mp old with old | new
        · exact List.mem_append_left _ old
        · rw [List.mem_singleton.mp new]
          exact List.mem_append_right _ (List.mem_of_getElem? here)
      · exact List.mem_append_right _ (List.mem_of_mem_eraseIdx still)
    · exact good

theorem forKey_overtake {key : Bytes} {r : WriteRequest} {front back : List WriteRequest}
    (alone : (forKey key (front ++ r :: back)).length ≤ 1) :
    forKey key (front ++ r :: back) = forKey key [r] ++ forKey key (front ++ back) := by
  by_cases same : r.key = key
  · have kept : forKey key [r] = [r] := by simp [forKey, same]
    rw [List.append_cons, forKey_append, forKey_append, kept] at alone ⊢
    simp only [List.length_append, List.length_singleton] at alone
    have before : forKey key front = [] := List.length_eq_zero_iff.mp (by omega)
    have after : forKey key back = [] := List.length_eq_zero_iff.mp (by omega)
    rw [forKey_append, before, after]
    rfl
  · rw [List.append_cons, forKey_append, forKey_append, forKey_append, forKey_other same]
    simp

theorem InStep.send {key : Bytes} {c : Committer} (good : InStep key c) (position : Nat) :
    InStep key (c.send position) := by
  unfold Committer.send
  split
  · exact good
  · next r here =>
    split
    · obtain ⟨front, back, whole, erased⟩ := eraseIdx_split here
      have alone := good.alone
      rw [openCalls, whole, forKey_append, List.length_append] at alone
      have moved : forKey key (front ++ r :: back) = forKey key [r] ++ forKey key (front ++ back) :=
        forKey_overtake (by omega)
      refine ⟨?_, ?_, ?_⟩
      · have logged := good.logged
        rw [whole, forKey_append, moved] at logged
        simp only [erased, logged, forKey_append, List.append_assoc]
      · have applied := good.applied
        rw [whole, List.filter_append, forKey_append, forKey_append, forKey_filter, forKey_filter,
          moved, List.filter_append, ← forKey_filter, ← forKey_filter, ← forKey_filter] at applied
        simp only [erased, applied, List.filter_append, forKey_append, List.append_assoc]
      · rw [moved] at alone
        simp only [openCalls, erased, List.filter_append, forKey_append, List.length_append] at alone ⊢
        have fewer : (forKey key ([r].filter WriteRequest.sync)).length ≤ (forKey key [r]).length :=
          (List.filter_sublist.filter _).length_le
        omega
    · exact good

theorem Stored.step {before : Bytes → Option Bytes} {key : Bytes} {c : Committer} {e : CommitEvent}
    (good : Stored before c) (writing : isWriting e = true) (apart : ApartOn key c e) :
    Stored before (c.step e) := by
  cases e with
  | begin r => exact good.begin apart.2.1
  | send position => exact good.send position
  | ack => exact good.ack
  | receive =>
    simp only [Committer.step]
    split
    · exact good.receive apart
    · exact good
  | tick =>
    simp only [Committer.step]
    split
    · exact good.flushBuffered apart
    · exact good
  | _ => cases writing

theorem InStep.step {key : Bytes} {c : Committer} {e : CommitEvent} (good : InStep key c)
    (writing : isWriting e = true) (apart : ApartOn key c e) : InStep key (c.step e) := by
  cases e with
  | begin r => exact good.begin apart.1
  | send position => exact good.send position
  | ack => exact good.ack
  | receive =>
    simp only [Committer.step]
    split
    · next idle => exact good.receive idle apart
    · exact good
  | tick =>
    simp only [Committer.step]
    split
    · next enabled => exact good.flushBuffered enabled.1 apart
    · exact good
  | _ => cases writing

/-- Once all is quiet the files open, the map and the opened shard agree on every key whose calls did not
overlap, and both hold the value of its last call. -/
theorem memory_agrees_with_log (s : Shard) (before : Bytes → Option Bytes) (memory : Backed s before)
    (files : Written s before) (fits : ∀ ie ∈ s.indexFile, Fits ie) (key : Bytes) (events : List CommitEvent)
    (writing : ∀ e ∈ events, isWriting e = true)
    (apart : Runs.Along step (ApartOn key) (start s) events)
    (quiet : (Runs.exec step (start s) events).Quiet) :
    (Runs.exec step (start s) events).shard.contents key =
        latestOf before (Runs.exec step (start s) events).begun key ∧
      ∃ reopened, (openShard (indexBytes (Runs.exec step (start s) events).shard.indexFile)
          (Runs.exec step (start s) events).shard.valueFile).1 = some reopened ∧
        reopened.contents key = latestOf before (Runs.exec step (start s) events).begun key := by
  have both := Runs.invariant step (fun c => Stored before c ∧ InStep key c)
    (fun c e good ok => ⟨good.1.step ok.1 ok.2, good.2.step ok.1 ok.2⟩)
    ⟨.start memory files fits, .start key s⟩ (Runs.along_and step writing apart)
  generalize Runs.exec step (start s) events = c at both quiet
  obtain ⟨stored, orders⟩ := both
  obtain ⟨sending, reqCh, buf, acking⟩ := quiet
  have logged : forKey key c.begun = forKey key c.flushed := by
    simpa [sending, reqCh, buf] using orders.logged
  have applied : forKey key c.begun = forKey key c.applied := by
    simpa [sending, reqCh, buf, acking] using orders.applied
  refine ⟨?_, _, congrArg Prod.fst (openShard_indexBytes stored.fits _), ?_⟩
  · rw [stored.memory.contents, latestOf_forKey before c.begun, latestOf_forKey before c.applied, ← applied]
  · rw [stored.files.reopen_backed.contents, latestOf_forKey before c.begun, latestOf_forKey before c.flushed,
      ← logged]

/-- A `putAsync` and then a `put` to one key, the second after the first has returned. -/
def oneAfterTheOther : List CommitEvent :=
  [.begin ⟨[97], [1], false⟩, .send 0, .begin ⟨[97], [2], true⟩, .send 0, .receive, .receive, .tick,
    .ack, .ack]

theorem oneAfterTheOther_agrees :
    (Runs.exec step (start {}) oneAfterTheOther).shard.contents [97] = some [2] ∧
      ∃ reopened, (openShard (indexBytes (Runs.exec step (start {}) oneAfterTheOther).shard.indexFile)
          (Runs.exec step (start {}) oneAfterTheOther).shard.valueFile).1 = some reopened ∧
        reopened.contents [97] = some [2] :=
  memory_agrees_with_log {} (fun _ => none) (fun _ => rfl) ⟨rfl, fun _ => rfl⟩ (by simp) [97] oneAfterTheOther
    (by decide) (by decide +kernel) (by decide +kernel)

def overlapping : List CommitEvent :=
  [.begin ⟨[97], [1], true⟩, .send 0, .begin ⟨[97], [2], false⟩, .send 0, .receive, .receive, .tick,
    .ack, .ack]

theorem overlapping_disagrees :
    (∀ e ∈ overlapping, isWriting e = true) ∧ (Runs.exec step (start {}) overlapping).Quiet ∧
      (Runs.exec step (start {}) overlapping).shard.contents [97] = some [1] ∧
      ∃ reopened, (openShard (indexBytes (Runs.exec step (start {}) overlapping).shard.indexFile)
          (Runs.exec step (start {}) overlapping).shard.valueFile).1 = some reopened ∧
        reopened.contents [97] = some [2] :=
  ⟨by decide, by decide +kernel, by decide +kernel, _, rfl, by decide +kernel⟩

end Committer

end Engine

end Kvgo

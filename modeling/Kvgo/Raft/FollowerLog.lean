import Kvgo.Raft.FlatLog
import Kvgo.Raft.LogMatching
import Kvgo.Raft.Replay

/-! What the handlers of a follower do to its log: `handleAppendEntries`, which cuts the log at
the first entry of the message whether or not there is a conflict, and `handleSnapshot`, which
moves the unstable offset to the boundary although the storage may go on behind it. -/

namespace Kvgo

namespace RaftLog

/-! ### Appends -/

def present (l : RaftLog) (e : Entry) : Bool := (l.entryAt e.index).map Entry.term == some e.term

def overlap (l : RaftLog) (ents : List Entry) : List Entry := ents.takeWhile l.present

def remaining (l : RaftLog) (ents : List Entry) : List Entry := ents.dropWhile l.present

def SameEntries (l l' : RaftLog) : Prop :=
  l'.lastIndex = l.lastIndex ∧ ∀ i, l'.entryAt i = l.entryAt i

/-- The merge of a batch behind `prev` into the log: nothing changes if all entries are
present; otherwise the log is kept up to the first one that is not, and goes on from there
with the rest of the batch. -/
def Merged (l : RaftLog) (prev : Nat) (ents : List Entry) (l' : RaftLog) : Prop :=
  if l.remaining ents = [] then SameEntries l l'
  else
    l'.lastIndex = prev + ents.length ∧
    ∀ i, l'.entryAt i =
      if i < prev + 1 + (l.overlap ents).length then l.entryAt i
      else (l.remaining ents)[i - (prev + 1 + (l.overlap ents).length)]?

/-- What a merge by truncation needs: the batch starts above the committed entries and leaves
no gap, what is present is equal, and if all is present then the log ends with the batch. -/
def Mergeable (l : RaftLog) (prev : Nat) (ents : List Entry) : Prop :=
  ents = [] ∨ l.committed ≤ prev ∧ prev + 1 ≤ l.unstable.offset + l.unstable.entries.length ∧
    (∀ e ∈ l.overlap ents, l.entryAt e.index = some e) ∧
    (l.remaining ents = [] → l.lastIndex = prev + ents.length)

variable {l l' : RaftLog} {prev : Nat} {ents : List Entry}

theorem overlap_append_remaining (l : RaftLog) (ents : List Entry) :
    l.overlap ents ++ l.remaining ents = ents := List.takeWhile_append_dropWhile

theorem Shape.entryAt_beyond (good : Shape l) {i : Nat} (beyond : l.lastIndex < i) : l.entryAt i = none := by
  have fits := good.fits
  unfold entryAt
  by_cases none : l.unstable.entries = []
  · rw [lastIndex_nil none] at beyond
    rw [if_pos (by omega), none]
    rfl
  · have last := lastIndex_cons good.placed.indexed none
    rw [if_pos (by omega), List.getElem?_eq_none (by omega)]

theorem overlap_length (l : RaftLog) (ents : List Entry) :
    (l.overlap ents).length + (l.remaining ents).length = ents.length := by
  rw [← List.length_append, overlap_append_remaining]

theorem getElem?_overlap {k : Nat} (low : k < (l.overlap ents).length) :
    ents[k]? = some (l.overlap ents)[k] := by
  conv_lhs => rw [← overlap_append_remaining l ents]
  rw [List.getElem?_append_left low, List.getElem?_eq_getElem low]

theorem Continued.entryAt_overlap (done : Continued l (prev + 1) ents l')
    (indexed : IndexedFrom (prev + 1) ents) {e : Entry} (inside : e ∈ l.overlap ents) :
    prev < e.index ∧ e.index < prev + 1 + (l.overlap ents).length ∧ l'.entryAt e.index = some e := by
  obtain ⟨k, low, rfl⟩ := List.mem_iff_getElem.mp inside
  have there := getElem?_overlap low
  have index := indexed k _ there
  refine ⟨by omega, by omega, ?_⟩
  rw [done.entry, if_neg (by omega), index, show prev + 1 + k - (prev + 1) = k by omega, there]

/-- A batch that is all present is merged by the cut if it is equal and the log ends with it. -/
theorem Continued.same_iff (done : Continued l (prev + 1) ents l') (good : Shape l)
    (indexed : IndexedFrom (prev + 1) ents) (all : l.remaining ents = []) :
    SameEntries l l' ↔ (∀ e ∈ l.overlap ents, l.entryAt e.index = some e) ∧
      l.lastIndex = prev + ents.length := by
  have last := done.last
  constructor
  · rintro ⟨same, entries⟩
    refine ⟨fun e inside => ?_, by omega⟩
    rw [← entries]
    exact (done.entryAt_overlap indexed inside).2.2
  · rintro ⟨equal, ends⟩
    refine ⟨by omega, fun i => ?_⟩
    rw [done.entry]
    split
    · rfl
    · next above =>
      have whole : l.overlap ents = ents := by
        have parts := l.overlap_append_remaining ents
        rwa [all, List.append_nil] at parts
      cases here : ents[i - (prev + 1)]? with
      | some e =>
        have index := indexed _ e here
        have found := equal e (by rw [whole]; exact List.mem_of_getElem? here)
        rw [index, show prev + 1 + (i - (prev + 1)) = i by omega] at found
        exact found.symm
      | none =>
        have beyond : ents.length ≤ i - (prev + 1) := by simpa using here
        exact (good.entryAt_beyond (by omega)).symm

/-- The log after the cut and the batch merges it exactly if the overlap is equal and nothing
stood behind a batch that was all present. -/
theorem Continued.merged_iff (done : Continued l (prev + 1) ents l') (good : Shape l)
    (indexed : IndexedFrom (prev + 1) ents) :
    Merged l prev ents l' ↔ (∀ e ∈ l.overlap ents, l.entryAt e.index = some e) ∧
      (l.remaining ents = [] → l.lastIndex = prev + ents.length) := by
  have last := done.last
  have size := l.overlap_length ents
  unfold Merged
  split
  · next all =>
    rw [done.same_iff good indexed all]
    exact and_congr_right fun _ => ⟨fun ends _ => ends, fun ends => ends all⟩
  · next left =>
    constructor
    · rintro ⟨_, entries⟩
      refine ⟨fun e inside => ?_, fun none => absurd none left⟩
      obtain ⟨_, below, there⟩ := done.entryAt_overlap indexed inside
      rw [entries, if_pos below] at there
      exact there
    · rintro ⟨equal, _⟩
      refine ⟨by omega, fun i => ?_⟩
      rw [done.entry]
      by_cases low : i < prev + 1
      · rw [if_pos low, if_pos (by omega)]
      · rw [if_neg low]
        split
        · next below =>
          have inside : i - (prev + 1) < (l.overlap ents).length := by omega
          have here := getElem?_overlap inside
          have found := equal _ (List.getElem_mem inside)
          rw [indexed _ _ here, show prev + 1 + (i - (prev + 1)) = i by omega] at found
          rw [here, found]
        · next above =>
          conv_lhs => rw [← l.overlap_append_remaining ents]
          rw [List.getElem?_append_right (by omega)]
          congr 1
          omega

theorem merged_nil (l : RaftLog) (prev : Nat) : Merged l prev [] l := by
  unfold Merged
  rw [if_pos (show l.remaining [] = [] from rfl)]
  exact ⟨rfl, fun _ => rfl⟩

theorem entryAt_gap (l : RaftLog) {i : Nat} (gap : l.unstable.offset + l.unstable.entries.length ≤ i) :
    l.entryAt i = none := by
  unfold entryAt
  rw [if_pos (by omega), List.getElem?_eq_none (by omega)]

/-- A batch behind a gap is refused, or brings back what stood there in the backing array. -/
theorem Shape.append_gap (good : Shape l) {room : Nat} (indexed : IndexedFrom (prev + 1) ents)
    (some : ents ≠ []) (gap : l.unstable.offset + l.unstable.entries.length < prev + 1)
    (ok : l.appendEntries ents room = .ok l') : ¬ Merged l prev ents l' := by
  rcases appendEntries_eq_ok ok with ⟨none, _⟩ | ⟨e, rest, unstable, rfl, _, cut, rfl⟩
  · exact absurd none some
  have cut := good.placed.truncateAndAppend indexed (by omega) cut
  obtain ⟨kept, entries, place, _⟩ := cut.entries
  have offset := cut.offset
  have here : e.index = prev + 1 := indexed.head
  -- the first entry of the batch is missing, so that the merge keeps all indices below it
  have missing : l.remaining (e :: rest) = e :: rest := by
    unfold remaining
    rw [List.dropWhile_cons_of_neg]
    simp [present, here, l.entryAt_gap (Nat.le_of_lt gap)]
  have first : l.overlap (e :: rest) = [] := by
    have parts := l.overlap_append_remaining (e :: rest)
    rw [missing] at parts
    simpa using parts
  unfold Merged
  rw [missing, if_neg (by simp)]
  rintro ⟨_, same⟩
  have hole := same (l.unstable.offset + l.unstable.entries.length)
  rw [first, if_pos (by simpa using gap), l.entryAt_gap (Nat.le_refl _)] at hole
  unfold entryAt at hole
  simp only [entries] at hole
  rw [if_pos (by omega), List.getElem?_eq_none_iff, List.length_append] at hole
  omega

theorem Shape.append_merged_iff (good : Shape l) (room : Nat) (indexed : IndexedFrom (prev + 1) ents) :
    (∃ l', l.appendEntries ents room = .ok l' ∧ Merged l prev ents l') ↔ Mergeable l prev ents := by
  by_cases none : ents = []
  · subst none
    exact ⟨fun _ => .inl rfl, fun _ => ⟨l, rfl, merged_nil l prev⟩⟩
  constructor
  · rintro ⟨l', ok, merged⟩
    have after : l.committed ≤ prev := by
      rcases appendEntries_eq_ok ok with ⟨empty, _⟩ | ⟨e, rest, _, rfl, after, _⟩
      · exact absurd empty none
      · have here : e.index = prev + 1 := indexed.head
        rwa [here, decr_pos _ (by omega)] at after
    have reach : prev + 1 ≤ l.unstable.offset + l.unstable.entries.length := by
      by_contra gap
      exact good.append_gap indexed none (by omega) ok merged
    obtain ⟨_, same, done⟩ := good.append_reach room indexed none (by omega) reach
    cases ok.symm.trans same
    exact .inr ⟨after, reach, (done.merged_iff good indexed).mp merged⟩
  · rintro (empty | ⟨after, reach, fits⟩)
    · exact absurd empty none
    · obtain ⟨l', ok, done⟩ := good.append_reach room indexed none (by omega) reach
      exact ⟨l', ok, (done.merged_iff good indexed).mpr fits⟩

theorem commitFromLeader_ok (l : RaftLog) (commit : Nat) :
    ∃ c, Raft.commitFromLeader l commit = .ok { l with committed := c } := by
  unfold Raft.commitFromLeader commitTo
  split
  · split
    · exact ⟨l.committed, rfl⟩
    · rw [if_neg (by omega)]
      exact ⟨_, rfl⟩
  · exact ⟨l.committed, rfl⟩

end RaftLog

namespace Raft

/-- Behind a matching index the handler appends; the commit and the answer leave the entries
as they are. -/
theorem handleAppendEntries_matched {r : Raft} {m : Message}
    (matched : r.raftLog.matchTerm m.index m.logTerm = .ok true) :
    (∃ r', r.handleAppendEntries m = .ok r' ∧ RaftLog.Merged r.raftLog m.index m.entries r'.raftLog) ↔
    ∃ l', r.raftLog.appendEntries m.entries r.draw.1 = .ok l' ∧
      RaftLog.Merged r.raftLog m.index m.entries l' := by
  have answers : ∀ r : Raft, r.send (acceptResp m) = .ok (r.enqueue (r.stamp (acceptResp m))) := by
    intro r
    unfold send acceptResp
    split <;> rfl
  have run : r.handleAppendEntries m = (do
      let raftLog ← r.raftLog.appendEntries m.entries r.draw.1
      let raftLog ← commitFromLeader raftLog m.commit
      ({ r.draw.2 with raftLog } : Raft).send (acceptResp m)) := by
    unfold handleAppendEntries
    rw [matched]
    rfl
  rw [run]
  cases append : r.raftLog.appendEntries m.entries r.draw.1 with
  | error p =>
    constructor
    · rintro ⟨r', ok, _⟩
      cases ok
    · rintro ⟨l', ok, _⟩
      cases ok
  | ok l =>
    obtain ⟨c, commit⟩ := RaftLog.commitFromLeader_ok l m.commit
    constructor
    · rintro ⟨r', ok, merged⟩
      refine ⟨l, rfl, ?_⟩
      simp only [bind, Except.bind, commit, answers] at ok
      cases ok
      rw [enqueue_raftLog] at merged
      exact merged
    · rintro ⟨l', same, merged⟩
      cases same
      simp only [bind, Except.bind, commit, answers]
      refine ⟨_, rfl, ?_⟩
      rw [enqueue_raftLog]
      exact merged

/-- A follower that accepts a batch merges it into its log exactly if the batch is mergeable. -/
theorem append_merges_iff (r : Raft) (m : Message) (good : r.raftLog.Shape)
    (matched : r.raftLog.matchTerm m.index m.logTerm = .ok true)
    (consecutive : RaftLog.Consecutive m) (type : m.type = .msgApp) :
    (∃ r', r.handleAppendEntries m = .ok r' ∧ RaftLog.Merged r.raftLog m.index m.entries r'.raftLog) ↔
      RaftLog.Mergeable r.raftLog m.index m.entries := by
  rw [handleAppendEntries_matched matched]
  exact good.append_merged_iff _ (consecutive type)

def holdingTwo : Config where
  id := 1
  peers := [2, 3]
  storage := { entries := [⟨1, 1, []⟩, ⟨2, 1, [7]⟩], hd := { term := 1, votedFor := 2 } }
  applied := 0
  electionTick := 2
  heartbeatTick := 1
  rng := fun _ => 0

theorem holdingTwo_sound : holdingTwo.storage.Sound where
  stored := ⟨by decide, by decide, by decide, by decide⟩
  committed := by decide
  boundary := by decide

def extendingAppend : Message where
  type := .msgApp
  fromId := 2
  toId := 1
  term := 1
  index := 1
  logTerm := 1
  entries := [⟨2, 1, [7]⟩, ⟨3, 1, [8]⟩]

def shorterAppend : Message where
  type := .msgApp
  fromId := 2
  toId := 1
  term := 1
  entries := [⟨1, 1, []⟩]

theorem extendingAppend_merges : ∃ r r', newRaft holdingTwo = .ok r ∧
    r.handleAppendEntries extendingAppend = .ok r' ∧
    RaftLog.Merged r.raftLog 1 extendingAppend.entries r'.raftLog := by
  have shape := (newRaft_shape holdingTwo_sound rfl).1
  obtain ⟨r', ok, merged⟩ := (append_merges_iff _ extendingAppend shape (by decide)
    (by intro; decide) rfl).mpr (.inr (by decide))
  exact ⟨_, r', rfl, ok, merged⟩

/-- An append that the follower already has, and that ends before its log, takes the rest. -/
theorem shorterAppend_truncates : ∃ r, newRaft holdingTwo = .ok r ∧ r.raftLog.Shape ∧
    r.raftLog.matchTerm shorterAppend.index shorterAppend.logTerm = .ok true ∧
    RaftLog.Consecutive shorterAppend ∧ r.raftLog.remaining shorterAppend.entries = [] ∧
    ¬ ∃ r', r.handleAppendEntries shorterAppend = .ok r' ∧
      RaftLog.Merged r.raftLog shorterAppend.index shorterAppend.entries r'.raftLog := by
  refine ⟨_, rfl, (newRaft_shape holdingTwo_sound rfl).1, by decide,
    by intro; decide, by decide, ?_⟩
  rintro ⟨r', ok, merged⟩
  unfold RaftLog.Merged at merged
  rw [if_pos (by decide)] at merged
  cases ok
  exact absurd merged.1 (by decide)

end Raft

namespace RaftLog

/-! ### Snapshots -/

/-- What an installed snapshot owes to the log before it: every index behind the boundary can
be read, the entries behind the boundary stay if the old log had its term there and go if not,
and an append at the end is accepted. -/
structure Coherent (l : RaftLog) (snap : SnapshotMeta) (l' : RaftLog) : Prop where
  readable : ∀ i, snap.lastIncludedIndex < i → i ≤ l'.lastIndex →
    ∃ e, l'.slice i (i + 1) = .ok [e] ∧ e.index = i ∧ l'.getTerm i = .ok (some e.term)
  retained : l.getTerm snap.lastIncludedIndex = .ok (some snap.lastIncludedTerm) →
    ∀ i e, snap.lastIncludedIndex < i → l.heldAt i = some e → l'.heldAt i = some e
  dropped : l.getTerm snap.lastIncludedIndex ≠ .ok (some snap.lastIncludedTerm) →
    ∀ i e, snap.lastIncludedIndex < i → l.heldAt i = some e → l'.heldAt i ≠ some e
  appendable : ∀ ents room, IndexedFrom (l'.lastIndex + 1) ents →
    ∃ l'', l'.appendEntries ents room = .ok l''

/-- The storage ends before the boundary, nothing is committed behind it, and a log that has
the boundary's term ends there. -/
def Installable (l : RaftLog) (snap : SnapshotMeta) : Prop :=
  l.storage.lastIndex ≤ snap.lastIncludedIndex ∧ l.committed ≤ snap.lastIncludedIndex ∧
    (l.getTerm snap.lastIncludedIndex = .ok (some snap.lastIncludedTerm) →
      l.lastIndex ≤ snap.lastIncludedIndex)

variable {l l' : RaftLog} {snap : SnapshotMeta}

theorem heldAt_beyond {i : Nat} (beyond : l.lastIndex < i) : l.heldAt i = none := if_pos beyond

theorem slice_none (none : l.unstable.entries = []) {i : Nat} (above : l.unstable.offset ≤ i) (e : Entry) :
    l.slice i (i + 1) ≠ .ok [e] := by
  rw [slice_eq, if_neg (by omega), if_neg (by omega)]
  change (if i + 1 ≤ l.unstable.offset then _ else _) ≠ _
  rw [if_neg (by omega), none]
  split
  · exact fun failed => by cases failed
  · simp

theorem Shape.heldAt_last (good : Shape l) (some : l.unstable.entries ≠ []) :
    ∃ e, l.heldAt l.lastIndex = .some e := by
  have last := lastIndex_cons good.placed.indexed some
  have long := List.length_pos_of_ne_nil some
  have here : l.lastIndex - l.unstable.offset < l.unstable.entries.length := by omega
  refine ⟨l.unstable.entries[l.lastIndex - l.unstable.offset], ?_⟩
  unfold heldAt
  rw [if_neg (by omega), if_pos (by omega), List.getElem?_eq_getElem here]
  rfl

section Restored

variable {storage : MemStorage} (good : Shape l)
  (accepted : l.storage.applySnapshot snap = (storage, none))

include good accepted

theorem Shape.restored_lastIndex :
    (({ l with storage } : RaftLog).restore snap.lastIncludedIndex).lastIndex =
      max l.storage.lastIndex snap.lastIncludedIndex := by
  obtain ⟨first, stored⟩ := good.stored
  rw [lastIndex_nil rfl]
  exact MemStorage.applySnapshot_last stored accepted

theorem Shape.coherent_installable
    (coherent : Coherent l snap (({ l with storage } : RaftLog).restore snap.lastIncludedIndex)) :
    Installable l snap := by
  have last := good.restored_lastIndex accepted
  have short : l.storage.lastIndex ≤ snap.lastIncludedIndex := by
    by_contra long
    obtain ⟨e, read, _⟩ := coherent.readable l.storage.lastIndex (by omega) (by omega)
    exact slice_none rfl (by show snap.lastIncludedIndex + 1 ≤ _; omega) e read
  rw [Nat.max_eq_right short] at last
  refine ⟨short, ?_, fun same => ?_⟩
  · have single : IndexedFrom (snap.lastIncludedIndex + 1) [⟨snap.lastIncludedIndex + 1, 0, []⟩] := by
      intro i e here
      cases i with
      | zero => cases here; rfl
      | succ i => cases here
    obtain ⟨_, ok⟩ := coherent.appendable [⟨snap.lastIncludedIndex + 1, 0, []⟩] 0 (by rw [last]; exact single)
    rcases appendEntries_eq_ok ok with ⟨none, _⟩ | ⟨e, rest, _, batch, after, _⟩
    · cases none
    · cases batch
      change max l.committed snap.lastIncludedIndex ≤ decr (snap.lastIncludedIndex + 1) at after
      rw [decr_pos _ (by omega)] at after
      omega
  · by_contra long
    have some : l.unstable.entries ≠ [] := by
      intro none
      rw [lastIndex_nil none] at long
      exact long short
    obtain ⟨e, held⟩ := good.heldAt_last some
    have kept := coherent.retained same _ e (by omega) held
    rw [heldAt_beyond (by omega)] at kept
    cases kept

theorem Shape.installable_coherent (installable : Installable l snap) :
    Coherent l snap (({ l with storage } : RaftLog).restore snap.lastIncludedIndex) := by
  obtain ⟨short, after, ends⟩ := installable
  have last := good.restored_lastIndex accepted
  rw [Nat.max_eq_right short] at last
  refine ⟨fun i above bound => by omega, fun same i e above held => ?_, fun _ i e above _ kept => ?_,
    fun ents room indexed => ?_⟩
  · rw [heldAt_beyond (by have := ends same; omega)] at held
    cases held
  · rw [heldAt_beyond (by omega)] at kept
    cases kept
  · rw [last] at indexed
    cases ents with
    | nil => exact ⟨_, rfl⟩
    | cons e rest =>
      have here : e.index = snap.lastIncludedIndex + 1 := indexed.head
      generalize restored : ({ l with storage } : RaftLog).restore snap.lastIncludedIndex = l'
      have committed : l'.committed = max l.committed snap.lastIncludedIndex := by rw [← restored]; rfl
      have offset : l'.unstable.offset = snap.lastIncludedIndex + 1 := by rw [← restored]; rfl
      unfold RaftLog.appendEntries Unstable.truncateAndAppend
      simp only
      rw [here, decr_pos _ (by omega), if_neg (by omega), if_pos (by omega)]
      exact ⟨_, rfl⟩

end Restored

end RaftLog

namespace Raft

/-- An accepted snapshot leaves a coherent log exactly if it is installable. -/
theorem snapshot_coherent_iff (r : Raft) (m : Message) (snap : SnapshotMeta) (good : r.raftLog.Shape)
    (carried : m.snapshot = some snap) (accepted : (r.raftLog.storage.applySnapshot snap).2 = none) :
    (∃ r', r.handleSnapshot m = .ok r' ∧ RaftLog.Coherent r.raftLog snap r'.raftLog) ↔
      RaftLog.Installable r.raftLog snap := by
  obtain ⟨storage, applied⟩ : ∃ storage, r.raftLog.storage.applySnapshot snap = (storage, none) :=
    ⟨_, Prod.ext rfl accepted⟩
  have run : r.handleSnapshot m = .ok { r with
      raftLog := { r.raftLog with storage }.restore snap.lastIncludedIndex } := by
    unfold handleSnapshot
    rw [carried]
    dsimp only
    rw [applied]
  rw [run]
  constructor
  · rintro ⟨_, ok, coherent⟩
    cases ok
    exact good.coherent_installable applied coherent
  · intro installable
    exact ⟨_, rfl, good.installable_coherent applied installable⟩

def snapshotAt (index : Nat) : Message where
  type := .msgSnap
  fromId := 2
  toId := 1
  term := 1
  snapshot := some ⟨index, 1⟩

theorem snapshotAt_five_coherent : ∃ r r', newRaft holdingTwo = .ok r ∧
    r.handleSnapshot (snapshotAt 5) = .ok r' ∧ RaftLog.Coherent r.raftLog ⟨5, 1⟩ r'.raftLog := by
  have shape := (newRaft_shape holdingTwo_sound rfl).1
  obtain ⟨r', ok, coherent⟩ := (snapshot_coherent_iff _ (snapshotAt 5) ⟨5, 1⟩ shape rfl rfl).mpr
    (by unfold RaftLog.Installable; decide)
  exact ⟨_, r', rfl, ok, coherent⟩

/-- A boundary inside the stored log: the entry behind it stays in the storage, and the log
cannot read it. -/
theorem snapshotAt_one_incoherent : ∃ r, newRaft holdingTwo = .ok r ∧ r.raftLog.Shape ∧
    (r.raftLog.storage.applySnapshot ⟨1, 1⟩).2 = none ∧
    ¬ ∃ r', r.handleSnapshot (snapshotAt 1) = .ok r' ∧
      RaftLog.Coherent r.raftLog ⟨1, 1⟩ r'.raftLog := by
  refine ⟨_, rfl, (newRaft_shape holdingTwo_sound rfl).1, rfl, ?_⟩
  rintro ⟨r', ok, coherent⟩
  cases ok
  obtain ⟨e, read, _⟩ := coherent.readable 2 (by decide) (by decide)
  exact RaftLog.slice_none rfl (by decide) e read

end Raft

end Kvgo

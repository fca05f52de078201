import Kvgo.Raft.Acts
import Kvgo.Raft.LogView

/-! The two layers of `raftLog` over a storage that may have been compacted, and what the
acts of a node do to them. The storage may hold entries at and below its boundary, since
a saved batch that reaches back replaces all stored entries. -/

namespace Kvgo

/-! How a node moves its log. -/

inductive RaftLog.Moves (m : Message) : RaftLog → RaftLog → Prop
  | append {l l' : RaftLog} (ents : List Entry) (room : Nat)
      (source : (∃ term data, ents = [⟨l.lastIndex + 1, term, data⟩]) ∨
        m.type = .msgApp ∧ ents = m.entries ∧ l.matchTerm m.index m.logTerm = .ok true)
      (ok : l.appendEntries ents room = .ok l') : Moves m l l'
  | commit {l l' : RaftLog} (i : Nat) (ok : l.commitTo i = .ok l') : Moves m l l'
  | restore {l : RaftLog} (snap : SnapshotMeta) (storage : MemStorage) (kind : m.type = .msgSnap)
      (carried : m.snapshot = some snap) (applied : l.storage.applySnapshot snap = (storage, none)) :
      Moves m l (({ l with storage } : RaftLog).restore snap.lastIncludedIndex)

namespace Raft

theorem appendEntry_moves {m : Message} {r r' : Raft} {data : Bytes}
    (ok : r.appendEntry data = .ok r') : RaftLog.Moves m r.raftLog r'.raftLog := by
  obtain ⟨raftLog, appended, rfl⟩ := appendEntry_eq ok
  rw [enqueue_raftLog]
  exact .append _ _ (.inl ⟨_, _, rfl⟩) appended

theorem commitFromLeader_moves {m : Message} {l l' : RaftLog} {commit : Nat}
    (ok : commitFromLeader l commit = .ok l') :
    Relation.ReflTransGen (RaftLog.Moves m) l l' := by
  unfold commitFromLeader at ok
  split at ok
  · exact .single (.commit _ ok)
  · cases ok
    exact .refl

theorem Act.moves {m : Message} {r0 r r' : Raft} (act : Act r0 m r r') :
    Relation.ReflTransGen (RaftLog.Moves m) r.raftLog r'.raftLog := by
  cases act with
  | soft same => rw [same.raftLog]
  | lead role won taken appended =>
    rw [← (takeLead_spec taken).raftLog]
    exact .single (appendEntry_moves appended)
  | propose data role appended => exact .single (appendEntry_moves appended)
  | accept appended committed heard role kind bound matched append commit =>
    rw [enqueue_raftLog]
    exact .head (.append _ _ (.inr ⟨kind, rfl, matched⟩) append) (commitFromLeader_moves commit)
  | beat raftLog heard role kind bound committed =>
    rw [enqueue_raftLog]
    exact .single (.commit _ committed)
  | commit raftLog role current committed => exact .single (.commit _ committed)
  | restore snap storage heard role kind carried applied =>
    exact .single (.restore snap storage kind carried applied)
  | candidacy role => rw [show (r.becomeCandidate.recordVote r.id true).raftLog = r.raftLog by
      simp [becomeCandidate, recordVote]]
  | emit msg sent => rw [enqueue_raftLog]
  | resend => rw [enqueue_raftLog]
  | follow => rw [becomeFollower_raftLog]
  | yield => rw [becomeFollower_raftLog]
  | abdicate => rw [becomeFollower_raftLog]
  | grant => rw [enqueue_raftLog]
  | refuse => rw [enqueue_raftLog]
  | _ => exact .refl

/-- Only responses wait for the append. -/
theorem Act.after {m : Message} {r0 r r' : Raft} (act : Act r0 m r r')
    (responses : ∀ msg ∈ r.msgsAfterAppend, afterAppend msg.type = true) :
    ∀ msg ∈ r'.msgsAfterAppend, afterAppend msg.type = true := by
  have queued : ∀ (s : Raft) new, s.msgsAfterAppend = r.msgsAfterAppend →
      ∀ msg ∈ (s.enqueue new).msgsAfterAppend, afterAppend msg.type = true := by
    intro s new same msg inside
    unfold enqueue at inside
    split at inside
    · rename_i kind
      rcases List.mem_append.mp inside with old | last
      · exact responses msg (same ▸ old)
      · rw [List.mem_singleton.mp last]; exact kind
    · exact responses msg (same ▸ inside)
  have appends : ∀ (s : Raft) data s', s.msgsAfterAppend = r.msgsAfterAppend →
      s.appendEntry data = .ok s' → ∀ msg ∈ s'.msgsAfterAppend, afterAppend msg.type = true := by
    intro s data s' same ok
    obtain ⟨raftLog, _, rfl⟩ := appendEntry_eq ok
    exact queued _ _ same
  cases act with
  | soft same => rwa [same.msgsAfterAppend]
  | lead role won taken appended => exact appends _ _ _ (takeLead_spec taken).msgsAfterAppend appended
  | propose data role appended => exact appends _ _ _ rfl appended
  | accept => exact queued _ _ rfl
  | beat => exact queued _ _ rfl
  | emit => exact queued _ _ rfl
  | resend => exact queued _ _ rfl
  | grant => exact queued _ _ rfl
  | refuse => exact queued _ _ rfl
  | candidacy role => simpa [becomeCandidate, recordVote] using responses
  | follow => rwa [becomeFollower_msgsAfterAppend]
  | yield => rwa [becomeFollower_msgsAfterAppend]
  | abdicate => rwa [becomeFollower_msgsAfterAppend]
  | _ => exact responses

end Raft

/-! The unstable layer. -/

theorem filterMap_id_full {α : Type} {L : List (Option α)} (full : L.length ≤ (L.filterMap id).length) :
    (L.filterMap id).map some = L := by
  induction L with
  | nil => rfl
  | cons x L ih =>
    have bound := List.length_filterMap_le id L
    cases x with
    | none =>
      rw [List.filterMap_cons_none rfl, List.length_cons] at full
      omega
    | some a =>
      rw [List.filterMap_cons_some (f := id) rfl, List.length_cons, List.length_cons] at full
      rw [List.filterMap_cons_some (f := id) rfl, List.map_cons, ih (by omega)]

theorem filterMap_id_all {α : Type} {L : List (Option α)} (all : ∀ x ∈ L, ∃ a, x = some a) :
    (L.filterMap id).map some = L := by
  induction L with
  | nil => rfl
  | cons x L ih =>
    obtain ⟨a, rfl⟩ := all x (by simp)
    rw [List.filterMap_cons_some (f := id) rfl, List.map_cons, ih (fun y inside => all y (by simp [inside]))]

namespace Unstable

structure Placed (u : Unstable) : Prop where
  offset : 0 < u.offset
  backed : ∀ (k : Nat) (e : Entry), u.backing[k]? = some (some e) → e.index = u.offset + k

/-- A position that was written once stays written, as long as the array does not move. -/
structure Rewrites (u u' : Unstable) : Prop where
  array : u.array ≤ u'.array
  offset : u'.array = u.array → u'.offset = u.offset
  kept : u'.array = u.array → ∀ (k : Nat) (e : Entry), u.backing[k]? = some (some e) →
    ∃ e', u'.backing[k]? = some (some e')

variable {u u' : Unstable}

theorem Rewrites.refl (u : Unstable) : Rewrites u u :=
  ⟨Nat.le_refl _, fun _ => rfl, fun _ _ e here => ⟨e, here⟩⟩

theorem Rewrites.trans {u'' : Unstable} (first : Rewrites u u') (second : Rewrites u' u'') :
    Rewrites u u'' := by
  have low := first.array
  have high := second.array
  refine ⟨by omega, fun same => ?_, fun same k e here => ?_⟩
  · exact (second.offset (by omega)).trans (first.offset (by omega))
  · obtain ⟨e', there⟩ := first.kept (by omega) k e here
    exact second.kept (by omega) k e' there

theorem backing_entries {k : Nat} {e : Entry} (here : u.entries[k]? = some e) :
    u.backing[k]? = some (some e) := by
  have inside := (List.getElem?_eq_some_iff.mp here).1
  rw [backing, List.getElem?_append_left (by simpa using inside), List.getElem?_map, here]
  rfl

theorem Placed.indexed (placed : Placed u) : IndexedFrom u.offset u.entries :=
  fun k e here => placed.backed k e (backing_entries here)

structure Pushed (u : Unstable) (ents : List Entry) (u' : Unstable) : Prop where
  entries : u'.entries = u.entries ++ ents
  offset : u'.offset = u.offset
  rewrites : Rewrites u u'
  placed : Placed u → IndexedFrom (u.offset + u.entries.length) ents → Placed u'

theorem push_pushed (u : Unstable) (ents : List Entry) (room : Nat) : Pushed u ents (u.push ents room) := by
  unfold push
  split
  · rename_i fits
    have here : ∀ k, ({ u with entries := u.entries ++ ents, spare := u.spare.drop ents.length } :
        Unstable).backing[k]? = if k < u.entries.length then u.backing[k]?
          else if k - u.entries.length < ents.length then (ents[k - u.entries.length]?).map some
          else u.backing[k]? := by
      intro k
      simp only [backing, List.map_append, List.append_assoc]
      split
      · rename_i low
        rw [List.getElem?_append_left (by simpa using low), List.getElem?_append_left (by simpa using low)]
      · rename_i high
        rw [List.getElem?_append_right (by simpa using high), List.length_map]
        split
        · rename_i new
          rw [List.getElem?_append_left (by simpa using new), List.getElem?_map]
        · rename_i old
          rw [List.getElem?_append_right (by simpa using old), List.length_map, List.getElem?_drop,
            List.getElem?_append_right (by simpa using high), List.length_map]
          congr 1
          omega
    refine ⟨rfl, rfl, ⟨Nat.le_refl _, fun _ => rfl, fun _ k e old => ?_⟩, fun placed indexed =>
      ⟨placed.offset, fun k e new => ?_⟩⟩
    · rw [here]
      split
      · exact ⟨e, old⟩
      split
      · rename_i inside
        exact ⟨ents.get ⟨_, inside⟩, by rw [List.getElem?_eq_getElem inside]; rfl⟩
      · exact ⟨e, old⟩
    · rw [here] at new
      split at new
      · exact placed.backed k e new
      split at new
      · obtain ⟨e', found, same⟩ := Option.map_eq_some_iff.mp new
        cases same
        have := indexed _ e found
        show e.index = u.offset + k
        omega
      · exact placed.backed k e new
  · refine ⟨rfl, rfl, ⟨by simp, fun same => ?_, fun same => ?_⟩, fun placed indexed =>
      ⟨placed.offset, fun k e new => ?_⟩⟩
    · simp at same
    · simp at same
    · simp only [backing] at new
      rcases Nat.lt_or_ge k (u.entries ++ ents).length with inside | outside
      · rw [List.getElem?_append_left (by simpa using inside), List.getElem?_map] at new
        obtain ⟨e', found, same⟩ := Option.map_eq_some_iff.mp new
        cases same
        exact (placed.indexed.append indexed) k e found
      · rw [List.getElem?_append_right (by simpa using outside), List.getElem?_replicate] at new
        split at new <;> cases new

theorem resize_spec {n : Nat} (ok : u.resize n = .ok u') :
    u'.backing = u.backing ∧ u'.entries.length = n ∧ u'.offset = u.offset ∧ u'.array = u.array := by
  unfold resize at ok
  split at ok
  · cases ok
  rename_i room
  dsimp only at ok
  split at ok
  · cases ok
  rename_i full
  cases ok
  have size : (u.backing.take n).length = n := by rw [List.length_take]; omega
  have bound := List.length_filterMap_le id (u.backing.take n)
  have all := filterMap_id_full (L := u.backing.take n) (by omega)
  refine ⟨?_, by dsimp only; omega, rfl, rfl⟩
  show ((u.backing.take n).filterMap id).map some ++ u.backing.drop n = u.backing
  rw [all, List.take_append_drop]

/-- The unstable layer after entries were put in place of everything from the first of them. -/
structure Cut (u : Unstable) (first : Nat) (ents : List Entry) (u' : Unstable) : Prop where
  placed : Placed u'
  rewrites : Rewrites u u'
  offset : u'.offset = min u.offset first
  entries : ∃ kept, u'.entries = kept ++ ents ∧ u'.offset + kept.length = first ∧
    (∀ k, k < kept.length → k < u.entries.length → kept[k]? = u.entries[k]?)

theorem Placed.truncateAndAppend (placed : Placed u) {ents : List Entry} {first room : Nat}
    (indexed : IndexedFrom first ents) (positive : 0 < first)
    (ok : u.truncateAndAppend ents room = .ok u') : Cut u first ents u' := by
  cases ents with
  | nil => cases ok
  | cons e rest =>
    have here : e.index = first := indexed.head
    simp only [Unstable.truncateAndAppend, here] at ok
    split at ok
    · rename_i low
      cases ok
      refine ⟨⟨positive, fun k e' new => ?_⟩, ⟨by simp, fun same => ?_, fun same => ?_⟩,
        by dsimp only; omega, [], rfl, rfl, fun k inside => absurd inside (Nat.not_lt_zero k)⟩
      · simp only [backing] at new
        rcases Nat.lt_or_ge k (e :: rest).length with inside | outside
        · rw [List.getElem?_append_left (by simpa using inside), List.getElem?_map] at new
          obtain ⟨e', found, same⟩ := Option.map_eq_some_iff.mp new
          cases same
          exact indexed k _ found
        · rw [List.getElem?_append_right (by simpa using outside), List.getElem?_replicate] at new
          split at new <;> cases new
      · simp at same
      · simp at same
    split at ok
    · rename_i high next
      cases ok
      have pushed := push_pushed u (e :: rest) room
      refine ⟨pushed.placed placed (next ▸ indexed), pushed.rewrites, by rw [pushed.offset]; omega,
        u.entries, pushed.entries, by rw [pushed.offset]; omega, fun _ _ _ => rfl⟩
    · rename_i high _
      obtain ⟨kept, resized, ok⟩ := Outcome.bind_eq_ok.mp ok
      cases ok
      obtain ⟨backing, length, offset, array⟩ := resize_spec resized
      have pushed := push_pushed kept (e :: rest) room
      have placed' : Placed kept := ⟨offset ▸ placed.offset, by rw [backing, offset]; exact placed.backed⟩
      have moved : Rewrites u kept :=
        ⟨by omega, fun _ => offset, fun _ k e there => ⟨e, by rw [backing]; exact there⟩⟩
      refine ⟨pushed.placed placed' ?_, moved.trans pushed.rewrites, by rw [pushed.offset, offset]; omega,
        kept.entries, pushed.entries, by rw [pushed.offset, offset, length]; omega,
        fun k inside before => ?_⟩
      · rw [offset, length, show u.offset + (first - u.offset) = first by omega]
        exact indexed
      · have here := backing_entries (List.getElem?_eq_getElem inside)
        rw [backing, backing_entries (List.getElem?_eq_getElem before)] at here
        rw [List.getElem?_eq_getElem inside, List.getElem?_eq_getElem before, Option.some_inj.mp here]

/-- Entries that are saved leave the unstable layer. -/
theorem Placed.stableTo (placed : Placed u) (index term : Nat) : Placed (u.stableTo index term) := by
  unfold Unstable.stableTo
  split
  · exact placed
  split
  · exact placed
  rename_i low _ found
  have inside := (List.getElem?_eq_some_iff.mp found).1
  split
  · exact placed
  · refine ⟨Nat.succ_pos _, fun k e' here => ?_⟩
    have there : u.backing[index - u.offset + 1 + k]? = some (some e') := by
      rw [← here]
      simp only [backing, List.map_drop]
      rcases Nat.lt_or_ge (index - u.offset + 1 + k) u.entries.length with near | far
      · rw [List.getElem?_append_left (by simpa using near),
          List.getElem?_append_left (by simp; omega), List.getElem?_drop]
      · rw [List.getElem?_append_right (by simpa using far),
          List.getElem?_append_right (by simp; omega)]
        congr 1
        simp
        omega
    have := placed.backed _ e' there
    show e'.index = index + 1 + k
    omega

end Unstable

/-! The storage. -/

namespace MemStorage

/-- Consecutive entries that reach at least from behind the boundary to it. -/
structure Stored (s : MemStorage) (first : Nat) : Prop where
  positive : 0 < first
  low : first ≤ s.snap.lastIncludedIndex + 1
  high : s.snap.lastIncludedIndex + 1 ≤ first + s.entries.length
  indexed : IndexedFrom first s.entries

def entryAt (s : MemStorage) (i : Nat) : Option Entry :=
  if s.firstIndex ≤ i then s.entries[i - s.firstIndex]? else none

variable {s s' : MemStorage} {first : Nat}

theorem Stored.lastIndex (stored : Stored s first) : s.lastIndex + 1 = first + s.entries.length := by
  unfold MemStorage.lastIndex
  cases last : s.entries.getLast? with
  | none =>
    have low := stored.low
    have high := stored.high
    rw [List.getLast?_eq_none_iff.mp last, List.length_nil] at high ⊢
    show s.snap.lastIncludedIndex + 1 = _
    omega
  | some e => exact stored.indexed.last last

theorem Stored.boundary_le (stored : Stored s first) : s.snap.lastIncludedIndex ≤ s.lastIndex := by
  have := stored.lastIndex
  have := stored.high
  omega

theorem Stored.firstIndex (stored : Stored s first) (some : s.entries ≠ []) : s.firstIndex = first := by
  unfold MemStorage.firstIndex
  cases entries : s.entries with
  | nil => exact absurd entries some
  | cons e rest =>
    have all := stored.indexed
    rw [entries] at all
    exact all.head

theorem Stored.entryAt (stored : Stored s first) {i : Nat} (bound : first ≤ i) :
    s.entryAt i = s.entries[i - first]? := by
  by_cases none : s.entries = []
  · simp [MemStorage.entryAt, none]
  · rw [MemStorage.entryAt, stored.firstIndex none, if_pos bound]

theorem stored_empty : Stored {} 1 := ⟨by decide, by decide, by decide, fun _ _ here => by simp at here⟩

/-- A saved batch takes the place of everything from its first entry on. -/
structure Replaced (s : MemStorage) (first o : Nat) (ents : List Entry) (s' : MemStorage) : Prop where
  snap : s'.snap = s.snap
  hd : s'.hd = s.hd
  stored : Stored s' first ∨ Stored s' o
  last : s'.lastIndex + 1 = o + ents.length
  bound : o ≤ s.lastIndex + 1
  below : ∀ i, s.snap.lastIncludedIndex < i → i < o → s'.entryAt i = s.entryAt i
  above : ∀ i, o ≤ i → s'.entryAt i = ents[i - o]?

theorem Replaced.exists_stored {o : Nat} {ents : List Entry} (replaced : Replaced s first o ents s') :
    ∃ first, Stored s' first :=
  replaced.stored.elim (fun here => ⟨_, here⟩) (fun here => ⟨_, here⟩)

theorem Stored.truncateAndAppend (stored : Stored s first) {ents : List Entry} {o : Nat}
    {err : Option StorageError} (indexed : IndexedFrom o ents) (positive : 0 < o)
    (reach : s.snap.lastIncludedIndex < o + ents.length)
    (ok : s.truncateAndAppend ents = .ok (s', err)) :
    s' = s ∧ (ents ≠ [] → err ≠ none) ∨ ents ≠ [] ∧ err = none ∧ Replaced s first o ents s' := by
  cases ents with
  | nil => cases ok; exact .inl ⟨rfl, by simp⟩
  | cons e rest =>
    have here : e.index = o := indexed.head
    have last := stored.lastIndex
    have low := stored.low
    have high := stored.high
    have whole : ∀ {s' : MemStorage}, s'.snap = s.snap → s'.hd = s.hd → s'.entries = e :: rest →
        o ≤ s.snap.lastIncludedIndex + 1 → o ≤ s.lastIndex + 1 → Replaced s first o (e :: rest) s' := by
      intro s' snap hd entries boundary bound
      have new : Stored s' o := ⟨positive, by rw [snap]; exact boundary,
        by rw [snap, entries]; exact reach, by rw [entries]; exact indexed⟩
      refine ⟨snap, hd, .inr new, ?_, bound, fun i above below => by omega, fun i above => ?_⟩
      · rw [new.lastIndex, entries]
      · rw [new.entryAt above, entries]
    simp only [MemStorage.truncateAndAppend, here] at ok
    split at ok
    · rename_i none
      rw [none, List.length_nil] at high last
      have expected : (if 0 < s.snap.lastIncludedIndex then s.snap.lastIncludedIndex + 1 else 1) =
          s.snap.lastIncludedIndex + 1 := by
        split <;> omega
      simp only [expected] at ok
      by_cases next : o = s.snap.lastIncludedIndex + 1
      · rw [if_neg (by simpa using next)] at ok
        cases ok
        exact .inr ⟨by simp, rfl, whole rfl rfl rfl (by omega) (by omega)⟩
      · rw [if_pos next] at ok
        cases ok
        exact .inl ⟨rfl, by simp⟩
    rename_i some
    have start := stored.firstIndex some
    -- an entry that is kept stands where it stood
    have joined : ∀ {s' : MemStorage} (k : Nat), k ≤ s.entries.length → first + k = o →
        s'.snap = s.snap → s'.hd = s.hd → s'.entries = s.entries.take k ++ e :: rest →
        Replaced s first o (e :: rest) s' := by
      intro s' k inside place snap hd entries
      have size : (s.entries.take k).length = k := by rw [List.length_take]; omega
      have new : Stored s' first := by
        refine ⟨stored.positive, by rw [snap]; exact low, ?_, ?_⟩
        · rw [snap, entries, List.length_append, size]
          simp only [List.length_cons] at reach ⊢
          omega
        · rw [entries]
          exact (stored.indexed.take k).append (by rw [size, place]; exact indexed)
      refine ⟨snap, hd, .inl new, ?_, by omega, fun i above below => ?_, fun i above => ?_⟩
      · rw [new.lastIndex, entries, List.length_append, size]
        omega
      · rw [new.entryAt (by omega), stored.entryAt (by omega), entries,
          List.getElem?_append_left (by omega), List.getElem?_take, if_pos (by omega)]
      · rw [new.entryAt (by omega), entries, List.getElem?_append_right (by omega), size]
        congr 1
        omega
    split at ok
    · cases ok
      exact .inr ⟨by simp, rfl, joined s.entries.length (Nat.le_refl _) (by omega) rfl rfl
        (by rw [List.take_length])⟩
    split at ok
    · cases ok; exact .inl ⟨rfl, by simp⟩
    rw [start] at ok
    split at ok
    · cases ok
      exact .inr ⟨by simp, rfl, whole rfl rfl rfl (by omega) (by omega)⟩
    · split at ok
      · cases ok
      · cases ok
        exact .inr ⟨by simp, rfl, joined (o - first) (by omega) (by omega) rfl rfl rfl⟩

theorem truncateAndAppend_snap {ents : List Entry} {err : Option StorageError}
    (ok : s.truncateAndAppend ents = .ok (s', err)) : s'.snap = s.snap := by
  unfold MemStorage.truncateAndAppend at ok
  split at ok
  · cases ok; rfl
  split at ok
  · dsimp only at ok
    split at ok <;> split at ok <;> (cases ok; rfl)
  split at ok
  · cases ok; rfl
  split at ok
  · cases ok; rfl
  split at ok
  · cases ok; rfl
  dsimp only at ok
  split at ok
  · cases ok
  · cases ok; rfl

theorem truncateAndAppend_hd {ents : List Entry} {err : Option StorageError}
    (ok : s.truncateAndAppend ents = .ok (s', err)) : s'.hd = s.hd := by
  unfold MemStorage.truncateAndAppend at ok
  split at ok
  · cases ok; rfl
  split at ok
  · dsimp only at ok
    split at ok <;> split at ok <;> (cases ok; rfl)
  split at ok
  · cases ok; rfl
  split at ok
  · cases ok; rfl
  split at ok
  · cases ok; rfl
  dsimp only at ok
  split at ok
  · cases ok
  · cases ok; rfl

theorem effectiveHard_cases (s : MemStorage) (hard : Option HardState) :
    (∃ hs, hard = some hs ∧ s.effectiveHard hard = hs) ∨ s.effectiveHard hard = s.hd := by
  unfold effectiveHard
  split
  · exact .inr rfl
  · cases hard with
    | none => exact .inr rfl
    | some hs => exact .inl ⟨hs, rfl, rfl⟩

theorem save_snap {ents : List Entry} {hard : Option HardState} {err : Option StorageError}
    (ok : s.save ents hard = .ok (s', err)) : s'.snap = s.snap := by
  unfold MemStorage.save at ok
  split at ok
  · cases ok; rfl
  · exact truncateAndAppend_snap (s := { s with hd := s.effectiveHard hard }) ok

theorem dropWhile_indexed {L : List Entry} (indexed : IndexedFrom first L) (j : Nat) :
    L.dropWhile (fun e => decide (e.index ≤ j)) = L.drop (j + 1 - first) := by
  induction L generalizing first with
  | nil => simp
  | cons e rest ih =>
    have here : e.index = first := indexed.head
    have tail : IndexedFrom (first + 1) rest := indexed.drop 1
    rw [List.dropWhile_cons, here]
    split
    · rename_i low
      simp only [decide_eq_true_eq] at low
      rw [ih tail, show j + 1 - first = (j + 1 - (first + 1)) + 1 by omega, List.drop_succ_cons]
    · rename_i high
      simp only [decide_eq_true_eq] at high
      rw [show j + 1 - first = 0 by omega, List.drop_zero]

theorem filterRetained_drop {o : Nat} {ents : List Entry} (indexed : IndexedFrom o ents) (positive : 0 < o)
    (n : Nat) : filterRetainedEntries ents n = ents.drop (n + 1 - o) := by
  unfold filterRetainedEntries
  split
  · rename_i zero
    rw [zero, show 0 + 1 - o = 0 by omega, List.drop_zero]
  · exact dropWhile_indexed indexed n

structure Compacted (s : MemStorage) (j : Nat) (s' : MemStorage) : Prop where
  moved : s.snap.lastIncludedIndex < j
  reached : j ≤ s.lastIndex
  snap : s'.snap.lastIncludedIndex = j
  term : ∃ e, s.entryAt j = some e ∧ s'.snap.lastIncludedTerm = e.term
  hd : s'.hd = s.hd
  stored : Stored s' (j + 1)
  last : s'.lastIndex = s.lastIndex
  above : ∀ i, j < i → s'.entryAt i = s.entryAt i

theorem Stored.drop_entryAt (stored : Stored s first) {j : Nat} (new : Stored s' (j + 1))
    (order : first ≤ j + 1) (entries : s'.entries = s.entries.drop (j + 1 - first)) {i : Nat}
    (above : j < i) : s'.entryAt i = s.entryAt i := by
  rw [new.entryAt above, stored.entryAt (by omega), entries, List.getElem?_drop]
  congr 1
  omega

theorem Stored.maybeCompact (stored : Stored s first) {threshold j : Nat} {err : Option StorageError}
    (ok : s.maybeCompact threshold j = .ok (s', err)) : s' = s ∨ Compacted s j s' := by
  have last := stored.lastIndex
  have low := stored.low
  unfold MemStorage.maybeCompact at ok
  split at ok
  · cases ok; exact .inl rfl
  rename_i above
  split at ok
  · cases ok; exact .inl rfl
  unfold compactLocked at ok
  split at ok
  · cases ok; exact .inl rfl
  split at ok
  · cases ok; exact .inl rfl
  rename_i inside
  simp only [not_or, Nat.not_lt] at inside above
  obtain ⟨found, term, ok⟩ := Outcome.bind_eq_ok.mp ok
  cases found with
  | none => cases ok; exact .inl rfl
  | some t =>
    cases ok
    right
    have start := stored.firstIndex inside.1
    have entry : ∃ e, s.entryAt j = some e ∧ t = e.term := by
      unfold termWithoutLock at term
      rw [if_neg (by omega), if_neg (by simp [inside.1, start]; omega), start] at term
      rw [stored.entryAt (by omega)]
      split at term
      · rename_i e here
        cases term
        exact ⟨e, here, rfl⟩
      · cases term
    have new : Stored { s with
        entries := s.entries.dropWhile (fun e => decide (e.index ≤ j)), snap := ⟨j, t⟩ } (j + 1) := by
      refine ⟨by omega, Nat.le_refl _, by simp, ?_⟩
      rw [dropWhile_indexed stored.indexed]
      have := stored.indexed.drop (j + 1 - first)
      rwa [show first + (j + 1 - first) = j + 1 by omega] at this
    refine ⟨Nat.not_le.mp above, inside.2, rfl, entry, rfl, new, ?_, fun i above =>
      stored.drop_entryAt new (by omega) (dropWhile_indexed stored.indexed j) above⟩
    have size := new.lastIndex
    rw [dropWhile_indexed stored.indexed] at size ⊢
    rw [List.length_drop] at size
    omega

/-- What the storage answers for a range is that range. -/
theorem Stored.getEntries_eq_some {lo hi : Nat} {ents : List Entry}
    (stored : Stored s first) (order : lo < hi) (ok : s.getEntries lo hi = .ok (some ents)) :
    first ≤ lo ∧ hi ≤ s.lastIndex + 1 ∧ ents = (s.entries.take (hi - first)).drop (lo - first) := by
  unfold MemStorage.getEntries at ok
  split at ok
  · cases ok
  split at ok
  · cases ok
  by_cases none : s.entries = []
  · simp only [if_pos none] at ok
    split at ok
    · cases ok
    · rename_i bounds
      omega
  · simp only [stored.firstIndex none, if_neg none] at ok
    split at ok
    · cases ok
    split at ok
    · omega
    split at ok
    · cases ok
    · rename_i bounds _ _
      cases ok
      exact ⟨by omega, by omega, rfl⟩

theorem Stored.getEntries {lo hi : Nat} (stored : Stored s first)
    (above : s.snap.lastIncludedIndex < lo) (order : lo < hi) (bound : hi ≤ s.lastIndex + 1) :
    s.getEntries lo hi = .ok (some ((s.entries.take (hi - first)).drop (lo - first))) := by
  have last := stored.lastIndex
  have low := stored.low
  have some : s.entries ≠ [] := by
    intro none
    rw [none, List.length_nil] at last
    omega
  unfold MemStorage.getEntries
  simp only [stored.firstIndex some, if_neg some]
  rw [if_neg (by omega), if_neg (by omega), if_neg (by omega), if_neg (by omega), if_neg (by omega)]

end MemStorage

/-! Both layers. -/

namespace RaftLog

def entryAt (l : RaftLog) (i : Nat) : Option Entry :=
  if l.unstable.offset ≤ i then l.unstable.entries[i - l.unstable.offset]? else l.storage.entryAt i

structure Shape (l : RaftLog) : Prop where
  stored : ∃ first, l.storage.Stored first
  placed : l.unstable.Placed
  fits : l.unstable.offset ≤ l.storage.lastIndex + 1
  low : l.storage.snap.lastIncludedIndex ≤ l.committed
  order : l.applied ≤ l.committed
  high : l.committed ≤ l.lastIndex

variable {l l' : RaftLog}

theorem lastIndex_nil (none : l.unstable.entries = []) : l.lastIndex = l.storage.lastIndex := by
  simp [lastIndex, Unstable.maybeLastIndex, none]

theorem lastIndex_cons (indexed : IndexedFrom l.unstable.offset l.unstable.entries)
    (some : l.unstable.entries ≠ []) :
    l.lastIndex + 1 = l.unstable.offset + l.unstable.entries.length := by
  cases last : l.unstable.entries.getLast? with
  | none => exact absurd (List.getLast?_eq_none_iff.mp last) some
  | some e =>
    simp only [lastIndex, Unstable.maybeLastIndex, last, Option.map_some, Option.getD_some]
    exact indexed.last last

def Tight (l : RaftLog) : Prop :=
  l.unstable.entries = [] → l.unstable.offset = l.storage.lastIndex + 1

structure Onward (l l' : RaftLog) : Prop where
  shape : Shape l'
  storage : l'.storage = l.storage
  applied : l'.applied = l.applied
  committed : l.committed ≤ l'.committed
  rewrites : Unstable.Rewrites l.unstable l'.unstable
  down : l'.unstable.offset ≤ l.unstable.offset
  tight : Tight l → Tight l'
  alive : l.unstable.entries ≠ [] → l'.unstable.entries ≠ []
  settled : Tight l → ∀ i, i ≤ l.committed → l'.entryAt i = l.entryAt i

theorem Onward.refl (good : Shape l) : Onward l l :=
  ⟨good, rfl, rfl, Nat.le_refl _, .refl _, Nat.le_refl _, fun tight => tight, fun alive => alive, fun _ _ _ => rfl⟩

theorem Onward.trans {l'' : RaftLog} (first : Onward l l') (second : Onward l' l'') : Onward l l'' where
  shape := second.shape
  storage := second.storage.trans first.storage
  applied := second.applied.trans first.applied
  committed := first.committed.trans second.committed
  rewrites := first.rewrites.trans second.rewrites
  down := second.down.trans first.down
  tight before := second.tight (first.tight before)
  alive before := second.alive (first.alive before)
  settled before i bound :=
    (second.settled (first.tight before) i (bound.trans first.committed)).trans (first.settled before i bound)

theorem Shape.commitTo (good : Shape l) {i : Nat} (ok : l.commitTo i = .ok l') : Onward l l' := by
  rcases commitTo_eq_ok ok with ⟨_, rfl⟩ | ⟨later, bound, rfl⟩
  · exact .refl good
  · exact ⟨⟨good.stored, good.placed, good.fits, good.low.trans (Nat.le_of_lt later),
      good.order.trans (Nat.le_of_lt later), bound⟩, rfl, rfl, Nat.le_of_lt later, .refl _, Nat.le_refl _, fun tight => tight, fun alive => alive, fun _ _ _ => rfl⟩

theorem Shape.appendEntries (good : Shape l) {ents : List Entry} {first room : Nat}
    (indexed : IndexedFrom first ents) (positive : 0 < first)
    (ok : l.appendEntries ents room = .ok l') : Onward l l' := by
  rcases appendEntries_eq_ok ok with ⟨_, rfl⟩ | ⟨e, rest, unstable, rfl, after, cut, rfl⟩
  · exact .refl good
  have here : e.index = first := indexed.head
  rw [here, decr_pos _ positive] at after
  have cut := good.placed.truncateAndAppend indexed positive cut
  obtain ⟨kept, entries, place, agree⟩ := cut.entries
  have offset := cut.offset
  have last : ({ l with unstable } : RaftLog).lastIndex + 1 = _ :=
    lastIndex_cons cut.placed.indexed (by rw [entries]; simp)
  rw [show ({ l with unstable } : RaftLog).unstable = unstable from rfl, entries, List.length_append,
    List.length_cons] at last
  have fits := good.fits
  refine ⟨⟨good.stored, cut.placed, ?_, good.low, good.order, ?_⟩, rfl, rfl, Nat.le_refl _, cut.rewrites,
    by show unstable.offset ≤ _; omega, fun _ none => ?_, fun _ none => ?_, fun tight i bound => ?_⟩
  · show unstable.offset ≤ l.storage.lastIndex + 1
    rw [cut.offset]
    omega
  · show l.committed ≤ _
    omega
  · rw [show ({ l with unstable } : RaftLog).unstable.entries = _ from entries] at none
    simp at none
  · rw [show ({ l with unstable } : RaftLog).unstable.entries = _ from entries] at none
    simp at none
  · have high := good.high
    unfold entryAt
    by_cases upper : l.unstable.offset ≤ i
    · have some : l.unstable.entries ≠ [] := by
        intro none
        rw [lastIndex_nil none] at high
        have := tight none
        omega
      have here := lastIndex_cons good.placed.indexed some
      rw [if_pos upper, if_pos (show unstable.offset ≤ i by omega)]
      show unstable.entries[i - unstable.offset]? = _
      rw [entries, List.getElem?_append_left (by omega), show unstable.offset = l.unstable.offset by omega]
      exact agree _ (by omega) (by omega)
    · rw [if_neg upper, if_neg (show ¬ unstable.offset ≤ i by omega)]

def Consecutive (m : Message) : Prop := m.type = .msgApp → IndexedFrom (m.index + 1) m.entries

theorem Shape.moves (good : Shape l) {m : Message} (consecutive : Consecutive m)
    (moves : Moves m l l') (ordinary : m.type ≠ .msgSnap) : Onward l l' := by
  cases moves with
  | append ents room source ok =>
    rcases source with ⟨term, data, rfl⟩ | ⟨kind, rfl, _⟩
    · have indexed : IndexedFrom (l.lastIndex + 1) [⟨l.lastIndex + 1, term, data⟩] := by
        intro i e here
        obtain ⟨bound, rfl⟩ := List.getElem?_eq_some_iff.mp here
        obtain rfl : i = 0 := by simpa using bound
        rfl
      exact good.appendEntries indexed (Nat.succ_pos _) ok
    · exact good.appendEntries (consecutive kind) (Nat.succ_pos _) ok
  | commit i ok => exact good.commitTo ok
  | restore snap storage kind => exact absurd kind ordinary

theorem Shape.moves_star (good : Shape l) {m : Message} (consecutive : Consecutive m)
    (ordinary : m.type ≠ .msgSnap) (moves : Relation.ReflTransGen (Moves m) l l') : Onward l l' := by
  induction moves with
  | refl => exact .refl good
  | tail _ last ih => exact ih.trans (ih.shape.moves consecutive last ordinary)

/-! Reading. -/

theorem slice_eq (l : RaftLog) (lo hi : Nat) : l.slice lo hi =
    if hi ≤ lo then .ok []
    else
      (if lo < l.unstable.offset then l.storage.getEntries lo (min hi l.unstable.offset)
        else .ok (some [])) >>= fun stored =>
      match stored with
      | none => .ok []
      | some ents =>
        if hi ≤ l.unstable.offset then .ok ents
        else if min (hi - l.unstable.offset) l.unstable.entries.length <
            max lo l.unstable.offset - l.unstable.offset then .error .runtime
        else .ok (ents ++ (l.unstable.entries.take
          (min (hi - l.unstable.offset) l.unstable.entries.length)).drop
            (max lo l.unstable.offset - l.unstable.offset)) := by
  unfold RaftLog.slice
  by_cases low : lo < l.unstable.offset
  · simp only [if_pos low] <;> rfl
  · simp only [if_neg low] <;> rfl

/-- A slice is consecutive from its lower bound, whatever of it the log can deliver. -/
theorem Shape.slice_indexed (good : Shape l) {lo hi : Nat} {ents : List Entry}
    (ok : l.slice lo hi = .ok ents) : IndexedFrom lo ents ∧ ents.length ≤ hi - lo := by
  obtain ⟨first, stored⟩ := good.stored
  have last := stored.lastIndex
  rw [slice_eq] at ok
  split at ok
  · cases ok
    exact ⟨fun _ _ here => by simp at here, by simp⟩
  rename_i order
  obtain ⟨part, read, ok⟩ := Outcome.bind_eq_ok.mp ok
  cases part with
  | none => cases ok; exact ⟨fun _ _ here => by simp at here, by simp⟩
  | some part =>
    have front : IndexedFrom lo part ∧ part.length = min hi l.unstable.offset - lo := by
      split at read
      · rename_i below
        obtain ⟨start, bound, rfl⟩ := stored.getEntries_eq_some (by omega) read
        constructor
        · have := (stored.indexed.take (min hi l.unstable.offset - first)).drop (lo - first)
          rwa [show first + (lo - first) = lo by omega] at this
        · rw [List.length_drop, List.length_take]
          omega
      · cases read
        exact ⟨fun _ _ here => by simp at here, by simp; omega⟩
    dsimp only at ok
    split at ok
    · cases ok
      exact ⟨front.1, by omega⟩
    · split at ok
      · cases ok
      · cases ok
        constructor
        · refine front.1.append ?_
          have := (good.placed.indexed.take
            (min (hi - l.unstable.offset) l.unstable.entries.length)).drop
              (max lo l.unstable.offset - l.unstable.offset)
          rwa [show l.unstable.offset + (max lo l.unstable.offset - l.unstable.offset) =
            lo + part.length by omega] at this
        · rw [List.length_append, List.length_drop, List.length_take]
          omega

structure Range (l : RaftLog) (lo hi : Nat) (ents : List Entry) : Prop where
  length : ents.length = hi - lo
  entry : ∀ k, k < hi - lo → ents[k]? = l.entryAt (lo + k)

theorem Shape.slice (good : Shape l) (tight : Tight l) {lo hi : Nat}
    (above : l.storage.snap.lastIncludedIndex < lo) (bound : hi ≤ l.lastIndex + 1) :
    ∃ ents, l.slice lo hi = .ok ents ∧ Range l lo hi ents := by
  obtain ⟨first, stored⟩ := good.stored
  have last := stored.lastIndex
  have low := stored.low
  have fits := good.fits
  rw [slice_eq]
  split
  · rename_i empty
    exact ⟨[], rfl, by simp; omega, fun k inside => by omega⟩
  rename_i order
  have reach : hi ≤ l.unstable.offset + l.unstable.entries.length := by
    by_cases none : l.unstable.entries = []
    · rw [lastIndex_nil none, ← tight none] at bound
      omega
    · rw [← lastIndex_cons good.placed.indexed none]
      exact bound
  -- the part below the offset, read from the storage
  have front : ∃ part, (if lo < l.unstable.offset then l.storage.getEntries lo (min hi l.unstable.offset)
      else .ok (some [])) = .ok (some part) ∧ Range l lo (min hi l.unstable.offset) part := by
    split
    · rename_i below
      refine ⟨_, stored.getEntries above (by omega) (by omega), ?_, fun k inside => ?_⟩
      · rw [List.length_drop, List.length_take]
        omega
      · rw [entryAt, if_neg (by omega), stored.entryAt (by omega), List.getElem?_drop,
          List.getElem?_take, if_pos (by omega)]
        congr 1
        omega
    · exact ⟨[], rfl, by simp; omega, fun k inside => by omega⟩
  obtain ⟨part, read, range⟩ := front
  have size := range.length
  rw [read]
  show ∃ ents, (if hi ≤ l.unstable.offset then _ else _) = _ ∧ _
  split
  · rename_i stop
    rw [Nat.min_eq_left stop] at range
    exact ⟨part, rfl, range⟩
  · rename_i beyond
    rw [Nat.min_eq_right (by omega)] at range size
    rw [if_neg (by omega)]
    refine ⟨_, rfl, ?_, fun k inside => ?_⟩
    · rw [List.length_append, List.length_drop, List.length_take]
      omega
    · rcases Nat.lt_or_ge k part.length with near | far
      · rw [List.getElem?_append_left near]
        exact range.entry k (by omega)
      · rw [List.getElem?_append_right far, List.getElem?_drop, List.getElem?_take, if_pos (by omega),
          entryAt, if_pos (by omega)]
        congr 1
        omega

theorem Shape.nextCommittedEnts (good : Shape l) {ents : List Entry}
    (ok : l.nextCommittedEnts = .ok ents) :
    IndexedFrom (l.applied + 1) ents ∧ l.applied + ents.length ≤ l.committed := by
  have order := good.order
  unfold RaftLog.nextCommittedEnts at ok
  split at ok
  · cases ok
    exact ⟨fun _ _ here => by simp at here, by simpa using order⟩
  · obtain ⟨indexed, bound⟩ := good.slice_indexed ok
    exact ⟨indexed, by omega⟩

/-- The entries that are handed out are those of the log. -/
theorem Shape.nextCommittedEnts_entryAt (good : Shape l) (tight : Tight l) {ents : List Entry}
    (above : l.storage.snap.lastIncludedIndex ≤ l.applied) (ok : l.nextCommittedEnts = .ok ents) :
    ents.length = l.committed - l.applied ∧ ∀ e ∈ ents, l.entryAt e.index = some e := by
  obtain ⟨indexed, _⟩ := good.nextCommittedEnts ok
  have high := good.high
  unfold RaftLog.nextCommittedEnts at ok
  split at ok
  · cases ok
    exact ⟨by simp; omega, by simp⟩
  · obtain ⟨_, read, range⟩ := good.slice tight (show _ < l.applied + 1 by omega)
      (show l.committed + 1 ≤ _ by omega)
    rw [read] at ok
    cases ok
    refine ⟨by rw [range.length]; omega, fun e inside => ?_⟩
    obtain ⟨k, bound, rfl⟩ := List.mem_iff_getElem.mp inside
    have here := List.getElem?_eq_getElem bound
    rw [indexed k _ here, ← range.entry k (by rw [← range.length]; exact bound), here]

/-! Saving and promoting. -/

/-- A `Ready` is saved whose entries start where the unstable layer started at most. -/
structure Saved (l : RaftLog) (o : Nat) (ents : List Entry) (failed : Bool) (s' : MemStorage) : Prop where
  shape : Shape { l with storage := s' }
  snap : s'.snap = l.storage.snap
  last : failed = false → ents ≠ [] → s'.lastIndex + 1 = o + ents.length
  same : ents = [] ∨ failed = true → s'.entries = l.storage.entries

theorem same_lastIndex {s s' : MemStorage} (snap : s'.snap = s.snap) (entries : s'.entries = s.entries) :
    s'.lastIndex = s.lastIndex := by
  rw [MemStorage.lastIndex, MemStorage.lastIndex, snap, entries]

theorem Shape.sameEntries (good : Shape l) {s' : MemStorage} (snap : s'.snap = l.storage.snap)
    (entries : s'.entries = l.storage.entries) : Shape { l with storage := s' } := by
  obtain ⟨first, stored⟩ := good.stored
  have last := same_lastIndex snap entries
  refine ⟨⟨first, stored.positive, by rw [snap]; exact stored.low, by rw [snap, entries]; exact stored.high,
    by rw [entries]; exact stored.indexed⟩, good.placed, by rw [last]; exact good.fits,
    by rw [snap]; exact good.low, good.order, ?_⟩
  have high := good.high
  by_cases none : l.unstable.entries = []
  · rw [lastIndex_nil none] at high
    rw [lastIndex_nil (l := { l with storage := s' }) none, last]
    exact high
  · have here := lastIndex_cons good.placed.indexed none
    have there := lastIndex_cons (l := { l with storage := s' }) good.placed.indexed none
    change _ = l.unstable.offset + l.unstable.entries.length at there
    show l.committed ≤ _
    omega

theorem Shape.save (good : Shape l) {o : Nat} {ents : List Entry} {hard : Option HardState}
    {s' : MemStorage} {err : Option StorageError} (indexed : IndexedFrom o ents) (positive : 0 < o)
    (offset : l.unstable.offset ≤ o)
    (some : ents ≠ [] → l.storage.snap.lastIncludedIndex < o + ents.length ∧ l.unstable.entries ≠ [])
    (ok : l.storage.save ents hard = .ok (s', err)) : Saved l o ents err.isSome s' := by
  unfold MemStorage.save at ok
  split at ok
  · cases ok
    exact ⟨good, rfl, fun _ more => absurd (by assumption : ents = [] ∧ _).1 more, fun _ => rfl⟩
  by_cases none : ents = []
  · subst none
    cases ok
    exact ⟨good.sameEntries rfl rfl, rfl, fun _ more => absurd rfl more, fun _ => rfl⟩
  obtain ⟨first, stored⟩ := good.stored
  have fresh : MemStorage.Stored { l.storage with hd := l.storage.effectiveHard hard } first :=
    ⟨stored.positive, stored.low, stored.high, stored.indexed⟩
  rcases fresh.truncateAndAppend indexed positive (some none).1 ok with ⟨rfl, failed⟩ | ⟨_, rfl, replaced⟩
  · have failed : err.isSome = true := Option.isSome_iff_ne_none.mpr (failed none)
    exact ⟨good.sameEntries rfl rfl, rfl, fun fine => by simp [failed] at fine, fun _ => rfl⟩
  · have last := replaced.last
    have there := lastIndex_cons (l := { l with storage := s' }) good.placed.indexed (some none).2
    have here := lastIndex_cons good.placed.indexed (some none).2
    refine ⟨⟨replaced.exists_stored, good.placed, ?_, by rw [replaced.snap]; exact good.low, good.order, ?_⟩,
      replaced.snap, fun _ _ => last, fun either => ?_⟩
    · show l.unstable.offset ≤ s'.lastIndex + 1
      omega
    · have := good.high
      show l.committed ≤ _
      change _ = l.unstable.offset + l.unstable.entries.length at there
      omega
    · rcases either with empty | failed
      · exact absurd empty none
      · cases failed

/-- Promoting entries that are stored keeps both ends of the log. -/
theorem Shape.stableTo (good : Shape l) {index : Nat} (term : Nat) (bound : index ≤ l.storage.lastIndex) :
    Shape (l.stableTo index term) ∧ (Tight l → index = l.storage.lastIndex → Tight (l.stableTo index term)) := by
  have placed := good.placed.stableTo index term
  have high := good.high
  by_cases same : l.unstable.stableTo index term = l.unstable
  · rw [show l.stableTo index term = l by rw [RaftLog.stableTo, same]]
    exact ⟨good, fun tight _ => tight⟩
  have moved : index - l.unstable.offset < l.unstable.entries.length ∧ l.unstable.offset ≤ index ∧
      (l.unstable.stableTo index term).entries = l.unstable.entries.drop (index - l.unstable.offset + 1) ∧
      (l.unstable.stableTo index term).offset = index + 1 := by
    revert same
    unfold Unstable.stableTo
    split
    · exact fun same => absurd rfl same
    split
    · exact fun same => absurd rfl same
    split
    · exact fun same => absurd rfl same
    · rename_i low _ found _
      exact fun _ => ⟨(List.getElem?_eq_some_iff.mp found).1, by omega, rfl, rfl⟩
  obtain ⟨inside, low, entries, offset⟩ := moved
  have some : l.unstable.entries ≠ [] := by
    intro none
    rw [none] at inside
    simp at inside
  have here := lastIndex_cons good.placed.indexed some
  refine ⟨⟨good.stored, placed, ?_, good.low, good.order, ?_⟩, fun _ exact none => ?_⟩
  · show (l.unstable.stableTo index term).offset ≤ l.storage.lastIndex + 1
    omega
  · show l.committed ≤ _
    by_cases none : (l.stableTo index term).unstable.entries = []
    · rw [lastIndex_nil none]
      have short := congrArg List.length (entries.symm.trans none)
      rw [List.length_drop, List.length_nil] at short
      show l.committed ≤ l.storage.lastIndex
      omega
    · have there := lastIndex_cons placed.indexed none
      rw [show (l.stableTo index term).unstable.entries = _ from entries,
        show (l.stableTo index term).unstable.offset = _ from offset, List.length_drop] at there
      omega
  · show (l.unstable.stableTo index term).offset = l.storage.lastIndex + 1
    omega

/-- Compaction up to a committed index. -/
theorem Shape.compact (good : Shape l) {j : Nat} {s' : MemStorage}
    (compacted : MemStorage.Compacted l.storage j s') (bound : j ≤ l.committed) :
    Shape { l with storage := s' } ∧ (Tight l → Tight { l with storage := s' }) := by
  have last := compacted.last
  refine ⟨⟨⟨_, compacted.stored⟩, good.placed, by rw [last]; exact good.fits,
    by rw [compacted.snap]; exact bound, good.order, ?_⟩, fun tight none => ?_⟩
  · have high := good.high
    show l.committed ≤ _
    by_cases none : l.unstable.entries = []
    · rw [lastIndex_nil none] at high
      rw [lastIndex_nil (l := { l with storage := s' }) none, last]
      exact high
    · have here := lastIndex_cons good.placed.indexed none
      have there := lastIndex_cons (l := { l with storage := s' }) good.placed.indexed none
      change _ = l.unstable.offset + l.unstable.entries.length at there
      omega
  · show l.unstable.offset = s'.lastIndex + 1
    rw [last]
    exact tight none

end RaftLog

end Kvgo

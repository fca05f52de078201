import Kvgo.Lib.TermLog
import Kvgo.Raft.Log

/-! The one log behind the two layers of `raftLog`, as long as nothing was compacted:
the stored entries below the unstable offset, then the unstable ones. What the
storage holds from the offset on is out of date and must not be read. -/

namespace Kvgo

def IndexedFrom (first : Nat) (L : List Entry) : Prop :=
  ∀ i e, L[i]? = some e → e.index = first + i

def termAt (L : List Entry) (i : Nat) : Option Nat :=
  if i = 0 then some 0 else L[i - 1]?.map Entry.term

section Lists

variable {first k : Nat} {L M : List Entry}

theorem IndexedFrom.append (left : IndexedFrom first L) (right : IndexedFrom (first + L.length) M) :
    IndexedFrom first (L ++ M) := by
  intro i e here
  rcases Nat.lt_or_ge i L.length with inside | outside
  · exact left i e (by rwa [List.getElem?_append_left inside] at here)
  · rw [List.getElem?_append_right outside] at here
    have := right _ e here
    omega

theorem IndexedFrom.of_isPrefix (all : IndexedFrom first M) (sub : L <+: M) : IndexedFrom first L :=
  fun i e here => all i e (by obtain ⟨rest, rfl⟩ := sub
                              rw [List.getElem?_append_left (List.getElem?_eq_some_iff.mp here).1, here])

theorem IndexedFrom.take (all : IndexedFrom first L) (k : Nat) : IndexedFrom first (L.take k) :=
  all.of_isPrefix (List.take_prefix k L)

theorem IndexedFrom.drop (all : IndexedFrom first L) (k : Nat) : IndexedFrom (first + k) (L.drop k) := by
  intro i e here
  rw [List.getElem?_drop] at here
  have := all _ e here
  omega

theorem IndexedFrom.head {e : Entry} (all : IndexedFrom first (e :: L)) : e.index = first :=
  all 0 e rfl

theorem IndexedFrom.last {e : Entry} (all : IndexedFrom first L) (last : L.getLast? = some e) :
    e.index + 1 = first + L.length := by
  rw [List.getLast?_eq_getElem?] at last
  have := all _ e last
  have := (List.getElem?_eq_some_iff.mp last).1
  omega

theorem termAt_zero : termAt L 0 = some 0 := rfl

theorem termAt_pos {i : Nat} (positive : 0 < i) : termAt L i = L[i - 1]?.map Entry.term := by
  rw [termAt, if_neg (by omega)]

theorem termAt_isSome {i : Nat} (bound : i ≤ L.length) : ∃ t, termAt L i = some t := by
  rcases Nat.eq_zero_or_pos i with rfl | positive
  · exact ⟨0, rfl⟩
  · exact ⟨_, by rw [termAt_pos positive, List.getElem?_eq_getElem (by omega)]; rfl⟩

theorem termAt_congr {i : Nat} (same : TermLog.Agree i L M) : termAt L i = termAt M i := by
  rcases Nat.eq_zero_or_pos i with rfl | positive
  · rfl
  · rw [termAt_pos positive, termAt_pos positive, same.get (show i - 1 < i by omega)]

end Lists

namespace MemStorage

structure Plain (s : MemStorage) : Prop where
  snap : s.snap.lastIncludedIndex = 0
  indexed : IndexedFrom 1 s.entries

variable {s s' : MemStorage}

theorem Plain.lastIndex (plain : Plain s) : s.lastIndex = s.entries.length := by
  unfold MemStorage.lastIndex
  cases last : s.entries.getLast? with
  | none => simp [List.getLast?_eq_none_iff.mp last, plain.snap]
  | some e =>
    have := plain.indexed.last last
    show e.index = _
    omega

theorem Plain.firstIndex_nil (plain : Plain s) (none : s.entries = []) : s.firstIndex = 0 := by
  simp [MemStorage.firstIndex, none, plain.snap]

theorem Plain.firstIndex_cons (plain : Plain s) (some : s.entries ≠ []) : s.firstIndex = 1 := by
  unfold MemStorage.firstIndex
  cases entries : s.entries with
  | nil => exact absurd entries some
  | cons e rest =>
    have all := plain.indexed
    rw [entries] at all
    exact all.head

theorem Plain.firstIndex_le (plain : Plain s) : s.firstIndex ≤ 1 := by
  by_cases none : s.entries = []
  · rw [plain.firstIndex_nil none]; omega
  · rw [plain.firstIndex_cons none]

theorem Plain.getTerm (plain : Plain s) {i : Nat} (positive : 0 < i) (bound : i ≤ s.entries.length) :
    s.getTerm i = .ok (termAt s.entries i) := by
  have some : s.entries ≠ [] := by rintro none; simp [none] at bound; omega
  have inside : i - 1 < s.entries.length := by omega
  unfold MemStorage.getTerm
  rw [plain.snap, plain.lastIndex, plain.firstIndex_cons some, if_neg (by omega), if_neg (by omega),
    if_neg (by omega), if_neg (by omega), termAt_pos positive, List.getElem?_eq_getElem inside]
  rfl

theorem Plain.getEntries (plain : Plain s) {lo hi : Nat} (positive : 0 < lo) (order : lo < hi)
    (bound : hi ≤ s.entries.length + 1) :
    s.getEntries lo hi = .ok (some ((s.entries.take (hi - 1)).drop (lo - 1))) := by
  have some : s.entries ≠ [] := by rintro none; simp [none] at bound; omega
  unfold MemStorage.getEntries
  simp only [plain.snap, plain.lastIndex, plain.firstIndex_cons some, if_neg some]
  rw [if_neg (by omega), if_neg (by omega), if_neg (by omega), if_neg (by omega), if_neg (by omega)]

/-- Entries that continue the log or reach back into it replace everything from the
first of them on. -/
theorem Plain.truncateAndAppend (plain : Plain s) {entries : List Entry} {o : Nat}
    (positive : 0 < o) (bound : o - 1 ≤ s.entries.length) (indexed : IndexedFrom o entries) :
    s.truncateAndAppend entries =
      .ok (if entries = [] then s else { s with entries := s.entries.take (o - 1) ++ entries }, none) := by
  cases entries with
  | nil => rfl
  | cons e rest =>
    have first : e.index = o := indexed.head
    have last := plain.lastIndex
    simp only [MemStorage.truncateAndAppend, first, last, if_neg (List.cons_ne_nil e rest)]
    by_cases none : s.entries = []
    · have one : o = 1 := by simp [none] at bound; omega
      simp [none, one, plain.snap]
    · rw [if_neg none, plain.firstIndex_cons none]
      split
      · rw [List.take_of_length_le (by omega)]
      split
      · omega
      split
      · have one : o = 1 := by omega
        simp [one]
      · rw [if_neg (by omega)]

theorem Plain.save (plain : Plain s) (entries : List Entry) (hard : Option HardState) {o : Nat}
    (positive : 0 < o) (bound : o - 1 ≤ s.entries.length) (indexed : IndexedFrom o entries) :
    ∃ s', s.save entries hard = .ok (s', none) ∧ Plain s' ∧
      s'.entries = if entries = [] then s.entries else s.entries.take (o - 1) ++ entries := by
  unfold MemStorage.save
  split
  · rename_i nothing
    exact ⟨s, rfl, plain, by rw [if_pos nothing.1]⟩
  · have fresh : Plain { s with hd := s.effectiveHard hard } := ⟨plain.snap, plain.indexed⟩
    refine ⟨_, fresh.truncateAndAppend positive bound indexed, ?_⟩
    split
    · exact ⟨fresh, rfl⟩
    · refine ⟨⟨plain.snap, (plain.indexed.take _).append ?_⟩, rfl⟩
      rw [List.length_take, Nat.min_eq_left bound, show 1 + (o - 1) = o by omega]
      exact indexed

end MemStorage

namespace RaftLog

def view (l : RaftLog) : List Entry :=
  l.storage.entries.take (l.unstable.offset - 1) ++ l.unstable.entries

/-- The layers fit together. With nothing unstable the storage ends at the offset. -/
structure Layered (l : RaftLog) : Prop where
  plain : l.storage.Plain
  positive : 0 < l.unstable.offset
  stored : l.unstable.offset - 1 ≤ l.storage.entries.length
  unstable : IndexedFrom l.unstable.offset l.unstable.entries
  settled : l.unstable.entries = [] → l.storage.entries.length = l.unstable.offset - 1
  committed : l.committed ≤ l.view.length

variable {l l' : RaftLog}

theorem Layered.length (ok : Layered l) :
    l.view.length = l.unstable.offset - 1 + l.unstable.entries.length := by
  simp [view, ok.stored]

theorem Layered.indexed (ok : Layered l) : IndexedFrom 1 l.view := by
  refine (ok.plain.indexed.take _).append ?_
  have := ok.positive
  rw [List.length_take, Nat.min_eq_left ok.stored,
    show 1 + (l.unstable.offset - 1) = l.unstable.offset by omega]
  exact ok.unstable

theorem Layered.lastIndex (ok : Layered l) : l.lastIndex = l.view.length := by
  have length := ok.length
  unfold RaftLog.lastIndex Unstable.maybeLastIndex
  cases last : l.unstable.entries.getLast? with
  | none =>
    have none := List.getLast?_eq_none_iff.mp last
    have := ok.settled none
    simp [ok.plain.lastIndex, length, none, this]
  | some e =>
    have := ok.unstable.last last
    have := ok.positive
    show e.index = _
    omega

theorem view_below {i : Nat} (stored : l.unstable.offset - 1 ≤ l.storage.entries.length)
    (below : i < l.unstable.offset - 1) : l.view[i]? = l.storage.entries[i]? := by
  rw [view, List.getElem?_append_left (by simp; omega), List.getElem?_take_of_lt below]

theorem view_above {i : Nat} (stored : l.unstable.offset - 1 ≤ l.storage.entries.length)
    (above : l.unstable.offset - 1 ≤ i) :
    l.view[i]? = l.unstable.entries[i - (l.unstable.offset - 1)]? := by
  rw [view, List.getElem?_append_right (by simp; omega), List.length_take, Nat.min_eq_left stored]

theorem Layered.getTerm (ok : Layered l) {i : Nat} (bound : i ≤ l.view.length) :
    l.getTerm i = .ok (termAt l.view i) := by
  have positive := ok.positive
  unfold RaftLog.getTerm
  split
  · rename_i zero; rw [zero, termAt_zero]
  rename_i nonzero
  rw [termAt_pos (by omega), Unstable.maybeTerm]
  by_cases below : i < l.unstable.offset
  · rw [if_pos below]
    show l.storage.getTerm i = _
    have := ok.stored
    rw [ok.plain.getTerm (by omega) (by omega), termAt_pos (by omega), view_below ok.stored (by omega)]
  · rw [if_neg below, view_above ok.stored (by omega),
      show i - 1 - (l.unstable.offset - 1) = i - l.unstable.offset by omega]
    have inside : i - l.unstable.offset < l.unstable.entries.length := by
      have := ok.length; omega
    rw [List.getElem?_eq_getElem inside]
    rfl

theorem Layered.matchTerm (ok : Layered l) {i term : Nat} (bound : i ≤ l.view.length) :
    l.matchTerm i term = .ok (termAt l.view i == some term) := by
  unfold RaftLog.matchTerm
  rw [ok.getTerm bound]
  rfl

theorem Layered.slice (ok : Layered l) {lo hi : Nat} (positive : 0 < lo) (order : lo ≤ hi)
    (bound : hi ≤ l.view.length + 1) : l.slice lo hi = .ok ((l.view.take (hi - 1)).drop (lo - 1)) := by
  have length := ok.length
  have start := ok.positive
  have stored := ok.stored
  unfold RaftLog.slice
  rcases order.eq_or_lt with rfl | order
  · simp
  rw [if_neg (by omega)]
  have below : lo < l.unstable.offset → l.storage.getEntries lo (min hi l.unstable.offset) =
      .ok (some ((l.storage.entries.take (min hi l.unstable.offset - 1)).drop (lo - 1))) := fun low =>
    ok.plain.getEntries positive (by omega) (by omega)
  have view : (l.view.take (hi - 1)).drop (lo - 1) =
      ((l.storage.entries.take (min hi l.unstable.offset - 1)).drop (lo - 1)) ++
        (l.unstable.entries.take (hi - l.unstable.offset)).drop (lo - l.unstable.offset) := by
    simp only [RaftLog.view, List.take_append, List.drop_append, List.length_take, List.take_take,
      Nat.min_eq_left stored]
    rw [show min (hi - 1) (l.unstable.offset - 1) = min hi l.unstable.offset - 1 by omega,
      show hi - 1 - (l.unstable.offset - 1) = hi - l.unstable.offset by omega]
    congr 2
    omega
  rw [view]
  by_cases low : lo < l.unstable.offset
  · rw [if_pos low, below low]
    show (if hi ≤ l.unstable.offset then _ else _) = _
    split
    · rw [show hi - l.unstable.offset = 0 by omega]; simp
    · rw [show max lo l.unstable.offset - l.unstable.offset = 0 by omega,
        show lo - l.unstable.offset = 0 by omega,
        show min (hi - l.unstable.offset) l.unstable.entries.length = hi - l.unstable.offset by omega]
      rfl
  · rw [if_neg low]
    show (if hi ≤ l.unstable.offset then _ else _) = _
    have none : (l.storage.entries.take (min hi l.unstable.offset - 1)).drop (lo - 1) = [] :=
      List.drop_eq_nil_of_le (by simp; omega)
    rw [if_neg (by omega), none, show max lo l.unstable.offset = lo by omega,
      show min (hi - l.unstable.offset) l.unstable.entries.length = hi - l.unstable.offset by omega]
    show (if hi - l.unstable.offset < lo - l.unstable.offset then _ else _) = _
    rw [if_neg (by omega)]

theorem Layered.nextCommittedEnts (ok : Layered l) :
    l.nextCommittedEnts = .ok ((l.view.take l.committed).drop l.applied) := by
  have := ok.committed
  unfold RaftLog.nextCommittedEnts
  split
  · rw [List.drop_eq_nil_of_le (by simp; omega)]
  · exact ok.slice (by omega) (by omega) (by omega)

theorem Layered.lastEntryID (ok : Layered l) :
    l.lastEntryID = .ok (l.view.length, TermLog.lastTerm Entry.term l.view) := by
  unfold RaftLog.lastEntryID
  rw [ok.lastIndex, ok.getTerm le_rfl]
  rcases l.view.eq_nil_or_concat with none | ⟨before, e, last⟩
  · simp [none, TermLog.lastTerm]
  · have some : 0 < l.view.length := by simp [last]
    rw [if_neg (by omega), termAt_pos some, ← List.getLast?_eq_getElem?]
    simp [TermLog.lastTerm, last, bind, Except.bind]

theorem Layered.isUpToDate (ok : Layered l) {L : List Entry}
    (upToDate : l.isUpToDate L.length (TermLog.lastTerm Entry.term L) = .ok true) :
    TermLog.UpToDate Entry.term L l.view := by
  unfold RaftLog.isUpToDate at upToDate
  rw [ok.lastEntryID] at upToDate
  simp only [bind, Except.bind, Except.ok.injEq, Bool.or_eq_true, Bool.and_eq_true,
    decide_eq_true_eq] at upToDate
  exact upToDate

theorem resize_of_le {u : Unstable} {n : Nat} (bound : n ≤ u.entries.length) :
    u.resize n = .ok { u with entries := u.entries.take n, spare := u.backing.drop n } := by
  have cut : (u.backing.take n).filterMap id = u.entries.take n := by
    rw [Unstable.backing, List.take_append_of_le_length (by simpa using bound), ← List.map_take,
      List.filterMap_map]
    simp
  unfold Unstable.resize
  rw [if_neg (by simp [Unstable.backing]; omega)]
  simp only [cut]
  rw [if_neg (by simp; omega)]

/-- What an append at index `k + 1` does to a layered log. -/
structure Appended (l : RaftLog) (k : Nat) (ents : List Entry) (l' : RaftLog) : Prop where
  layered : Layered l'
  storage : l'.storage = l.storage
  committed : l'.committed = l.committed
  above : l.committed ≤ k
  view : l'.view = l.view.take k ++ ents
  nonempty : l'.unstable.entries ≠ []
  /-- The unstable entries move to a new array or are overwritten in place. -/
  memory : l.unstable.array < l'.unstable.array ∧ l'.unstable.offset ≤ l.unstable.offset ∨
    l'.unstable.array = l.unstable.array ∧ l'.unstable.offset = l.unstable.offset ∧
      l.unstable.offset < k + 1 ∧
      l'.unstable.entries = l.unstable.entries.take (k + 1 - l.unstable.offset) ++ ents ∧
      k + 1 - l.unstable.offset + ents.length ≤ l.unstable.backing.length

theorem view_take_stored (ok : Layered l) {k : Nat} (below : k ≤ l.unstable.offset - 1) :
    l.view.take k = l.storage.entries.take k := by
  have := ok.stored
  rw [view, List.take_append_of_le_length (by simp; omega), List.take_take, Nat.min_eq_left below]

theorem view_take_unstable (ok : Layered l) {k : Nat} (above : l.unstable.offset - 1 ≤ k) :
    l.view.take k = l.storage.entries.take (l.unstable.offset - 1) ++
      l.unstable.entries.take (k - (l.unstable.offset - 1)) := by
  have := ok.stored
  rw [view, List.take_append, List.length_take, Nat.min_eq_left ok.stored, List.take_take,
    Nat.min_eq_right above]

theorem push_cases (u : Unstable) (ents : List Entry) (room : Nat) :
    (u.push ents room).offset = u.offset ∧ (u.push ents room).entries = u.entries ++ ents ∧
      ((u.push ents room).array = u.array ∧ ents.length ≤ u.spare.length ∨
        (u.push ents room).array = u.array + 1) := by
  unfold Unstable.push
  split
  · exact ⟨rfl, rfl, .inl ⟨rfl, ‹_›⟩⟩
  · exact ⟨rfl, rfl, .inr rfl⟩

theorem Layered.appendEntries (ok : Layered l) {k room : Nat} {ents : List Entry}
    (bound : k ≤ l.view.length) (indexed : IndexedFrom (k + 1) ents) (some : ents ≠ [])
    (done : l.appendEntries ents room = .ok l') : Appended l k ents l' := by
  have positive := ok.positive
  have stored := ok.stored
  have length := ok.length
  rcases appendEntries_eq_ok done with ⟨none, _⟩ | ⟨e, rest, u, shape, above, cut, rfl⟩
  · exact absurd none some
  have first : e.index = k + 1 := by rw [shape] at indexed; exact indexed.head
  rw [first, decr_pos _ (by omega)] at above
  simp only [Nat.add_sub_cancel] at above
  have committed : ∀ L : List Entry, L = l.view.take k ++ ents → l.committed ≤ L.length := by
    rintro L rfl
    simp; omega
  rw [shape] at cut
  simp only [Unstable.truncateAndAppend, first] at cut
  rw [← shape] at cut
  split at cut
  · -- everything unstable is replaced, and stored entries from `k + 1` on are out of date
    rename_i low
    cases cut
    have view : RaftLog.view { l with unstable := { entries := ents, offset := k + 1, spare := List.replicate room none, array := l.unstable.array + 1 } } =
        l.view.take k ++ ents := by
      rw [view_take_stored ok (by omega)]; rfl
    refine ⟨⟨ok.plain, by simp, by simp; omega, indexed, fun none => absurd none some, ?_⟩, rfl, rfl,
      above, view, some, .inl ⟨by simp, low⟩⟩
    exact committed _ view
  · rename_i high
    -- the entries up to `k` are kept, in the same array or in a copy
    have kept : ∃ kept : Unstable, kept.offset = l.unstable.offset ∧ kept.array = l.unstable.array ∧
        kept.entries = l.unstable.entries.take (k + 1 - l.unstable.offset) ∧
        kept.spare.length + (k + 1 - l.unstable.offset) = l.unstable.backing.length ∧
        u = kept.push ents room := by
      split at cut
      · cases cut
        refine ⟨l.unstable, rfl, rfl, (List.take_of_length_le (by omega)).symm, ?_, rfl⟩
        simp [Unstable.backing]; omega
      · rw [resize_of_le (by omega)] at cut
        cases cut
        refine ⟨{ l.unstable with
          entries := l.unstable.entries.take (k + 1 - l.unstable.offset)
          spare := l.unstable.backing.drop (k + 1 - l.unstable.offset) }, rfl, rfl, rfl, ?_, rfl⟩
        simp [Unstable.backing]; omega
    obtain ⟨kept, offset, array, entries, room', rfl⟩ := kept
    obtain ⟨offset', entries', array'⟩ := push_cases kept ents room
    rw [offset] at offset'
    rw [entries] at entries'
    have view : RaftLog.view { l with unstable := kept.push ents room } = l.view.take k ++ ents := by
      rw [view_take_unstable ok (by omega)]
      simp only [RaftLog.view, offset', entries', List.append_assoc]
      rw [show k - (l.unstable.offset - 1) = k + 1 - l.unstable.offset by omega]
    refine ⟨⟨ok.plain, by simpa [offset'] using positive, by simpa [offset'] using stored, ?_, ?_, ?_⟩,
      rfl, rfl, above, view, by simp [entries', some], ?_⟩
    · simp only [offset', entries']
      refine (ok.unstable.take _).append ?_
      rw [List.length_take, Nat.min_eq_left (by omega),
        show l.unstable.offset + (k + 1 - l.unstable.offset) = k + 1 by omega]
      exact indexed
    · intro none
      simp [entries', some] at none
    · exact committed _ view
    · rcases array' with ⟨same, fits⟩ | moved
      · exact .inr ⟨same.trans array, offset', by omega, entries', by omega⟩
      · exact .inl ⟨by simp only [moved, array]; omega, offset'.le⟩

end RaftLog

end Kvgo

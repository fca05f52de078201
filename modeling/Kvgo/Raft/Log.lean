import Kvgo.Lib.Runs
import Kvgo.Raft.Storage

/-! The two-layer log (`log.go`, `log_unstable.go`).

`Ready` hands out the slice `unstable.entries` itself, so an append that fits
the capacity of its backing array is visible to a `Ready` taken before. The
unstable part therefore carries the rest of that array, past its length, and a
number that tells one array from the next. How much room a freshly allocated
slice has is up to the runtime; it is a parameter of the operations. -/

namespace Kvgo

structure Unstable where
  entries : List Entry := []
  offset : Nat
  /-- The backing array past the length of `entries`; `none` is a nil pointer. -/
  spare : List (Option Entry) := []
  /-- Changes when `entries` moves to another backing array. -/
  array : Nat := 0
  deriving DecidableEq, Repr

namespace Unstable

def backing (u : Unstable) : List (Option Entry) := u.entries.map some ++ u.spare

def stableTo (u : Unstable) (index term : Nat) : Unstable :=
  if index < u.offset then u
  else
    match u.entries[index - u.offset]? with
    | none => u
    | some e =>
      if e.term ≠ term then u
      else { u with entries := u.entries.drop (index - u.offset + 1), offset := index + 1 }

/-- The built-in `append`: in place while the capacity lasts, else into a new array. -/
def push (u : Unstable) (entries : List Entry) (room : Nat) : Unstable :=
  if entries.length ≤ u.spare.length then
    { u with entries := u.entries ++ entries, spare := u.spare.drop entries.length }
  else
    { u with
      entries := u.entries ++ entries
      spare := List.replicate room none
      array := u.array + 1 }

/-- The slice expression `entries[:n]`, which may reach past the length up to the
capacity. Nil entries exposed that way are taken as a panic at once. -/
def resize (u : Unstable) (n : Nat) : Except Panic Unstable :=
  if u.backing.length < n then .error .runtime
  else
    let kept := (u.backing.take n).filterMap id
    if kept.length < n then .error .runtime
    else .ok { u with entries := kept, spare := u.backing.drop n }

def truncateAndAppend (u : Unstable) (entries : List Entry) (room : Nat) : Except Panic Unstable :=
  match entries with
  | [] => .error .runtime
  | e :: _ =>
    if e.index ≤ u.offset then
      .ok { entries := entries, offset := e.index,
            spare := List.replicate room none, array := u.array + 1 }
    else if e.index = u.offset + u.entries.length then .ok (u.push entries room)
    else do
      let kept ← u.resize (e.index - u.offset)
      .ok (kept.push entries room)

def maybeLastIndex (u : Unstable) : Option Nat := u.entries.getLast?.map Entry.index

def maybeTerm (u : Unstable) (index : Nat) : Option Nat :=
  if index < u.offset then none else u.entries[index - u.offset]?.map Entry.term

end Unstable

structure RaftLog where
  storage : MemStorage
  unstable : Unstable
  committed : Nat
  applied : Nat
  deriving DecidableEq, Repr

namespace RaftLog

def newRaftLog (storage : MemStorage) : RaftLog where
  storage := storage
  unstable := { offset := storage.lastIndex + 1 }
  committed := storage.firstIndex - 1
  applied := storage.firstIndex - 1

/-- `term(i)`; `none` stands for the error of the storage. -/
def getTerm (l : RaftLog) (i : Nat) : Except Panic (Option Nat) :=
  if i = 0 then .ok (some 0)
  else
    match l.unstable.maybeTerm i with
    | some t => .ok (some t)
    | none => l.storage.getTerm i

def matchTerm (l : RaftLog) (i term : Nat) : Except Panic Bool := do
  let t ← l.getTerm i
  .ok (t == some term)

def lastIndex (l : RaftLog) : Nat := l.unstable.maybeLastIndex.getD l.storage.lastIndex

/-- `slice(lo, hi)`: storage below the unstable offset, unstable from there on. -/
def slice (l : RaftLog) (lo hi : Nat) : Except Panic (List Entry) :=
  if hi ≤ lo then .ok []
  else do
    let stored ←
      if lo < l.unstable.offset then l.storage.getEntries lo (min hi l.unstable.offset)
      else .ok (some [])
    match stored with
    | none => .ok []
    | some ents =>
      if hi ≤ l.unstable.offset then .ok ents
      else
        let unstableLo := max lo l.unstable.offset - l.unstable.offset
        let unstableHi := min (hi - l.unstable.offset) l.unstable.entries.length
        if unstableHi < unstableLo then .error .runtime
        else .ok (ents ++ (l.unstable.entries.take unstableHi).drop unstableLo)

def nextUnstableEnts (l : RaftLog) : List Entry := l.unstable.entries

def nextCommittedEnts (l : RaftLog) : Except Panic (List Entry) :=
  if l.committed ≤ l.applied then .ok [] else l.slice (l.applied + 1) (l.committed + 1)

def hasNextUnstableEnts (l : RaftLog) : Bool := !l.unstable.entries.isEmpty

def hasNextCommittedEnts (l : RaftLog) : Bool := decide (l.applied < l.committed)

def stableTo (l : RaftLog) (i term : Nat) : RaftLog :=
  { l with unstable := l.unstable.stableTo i term }

def appliedTo (l : RaftLog) (i : Nat) : RaftLog := { l with applied := i }

def commitTo (l : RaftLog) (i : Nat) : Except Panic RaftLog :=
  if i ≤ l.committed then .ok l
  else if l.lastIndex < i then .error .commitOutOfRange
  else .ok { l with committed := i }

def appendEntries (l : RaftLog) (ents : List Entry) (room : Nat) : Except Panic RaftLog :=
  match ents with
  | [] => .ok l
  | e :: _ =>
    if decr e.index < l.committed then .error .afterBeforeCommitted
    else do
      let unstable ← l.unstable.truncateAndAppend ents room
      .ok { l with unstable }

theorem commitTo_eq_ok {l l' : RaftLog} {i : Nat} (ok : l.commitTo i = .ok l') :
    i ≤ l.committed ∧ l' = l ∨ l.committed < i ∧ i ≤ l.lastIndex ∧ l' = { l with committed := i } := by
  unfold commitTo at ok
  split at ok
  · cases ok; exact .inl ⟨‹_›, rfl⟩
  split at ok
  · cases ok
  · cases ok; exact .inr ⟨by omega, by omega, rfl⟩

theorem appendEntries_eq_ok {l l' : RaftLog} {ents : List Entry} {room : Nat}
    (ok : l.appendEntries ents room = .ok l') :
    ents = [] ∧ l' = l ∨ ∃ e rest unstable, ents = e :: rest ∧ l.committed ≤ decr e.index ∧
      l.unstable.truncateAndAppend ents room = .ok unstable ∧ l' = { l with unstable } := by
  cases ents with
  | nil => cases ok; exact .inl ⟨rfl, rfl⟩
  | cons e rest =>
    simp only [appendEntries] at ok
    split at ok
    · cases ok
    · obtain ⟨unstable, done, ok⟩ := Outcome.bind_eq_ok.mp ok
      cases ok
      exact .inr ⟨e, rest, unstable, rfl, by omega, done, rfl⟩

theorem commitTo_storage {l l' : RaftLog} {i : Nat} (ok : l.commitTo i = .ok l') :
    l'.storage = l.storage := by
  rcases commitTo_eq_ok ok with ⟨_, rfl⟩ | ⟨_, _, rfl⟩ <;> rfl

theorem appendEntries_storage {l l' : RaftLog} {ents : List Entry} {room : Nat}
    (ok : l.appendEntries ents room = .ok l') : l'.storage = l.storage := by
  rcases appendEntries_eq_ok ok with ⟨_, rfl⟩ | ⟨_, _, _, _, _, _, rfl⟩ <;> rfl

/-- The log ends with an entry that was just appended. -/
theorem appendEntries_lastIndex {l l' : RaftLog} {e : Entry} {room : Nat}
    (ok : l.appendEntries [e] room = .ok l') : l'.lastIndex = e.index := by
  rcases appendEntries_eq_ok ok with ⟨none, _⟩ | ⟨d, rest, unstable, shape, _, cut, rfl⟩
  · cases none
  cases shape
  have pushed : ∀ u : Unstable, (u.push [e] room).entries = u.entries ++ [e] := by
    intro u
    unfold Unstable.push
    split <;> rfl
  have last : unstable.entries.getLast? = some e := by
    simp only [Unstable.truncateAndAppend] at cut
    split at cut
    · cases cut; rfl
    split at cut
    · cases cut; simp [pushed]
    · obtain ⟨kept, _, cut⟩ := Outcome.bind_eq_ok.mp cut
      cases cut; simp [pushed]
  simp [lastIndex, Unstable.maybeLastIndex, last]

def lastEntryID (l : RaftLog) : Except Panic (Nat × Nat) :=
  if l.lastIndex = 0 then .ok (0, 0)
  else do
    match ← l.getTerm l.lastIndex with
    | some t => .ok (l.lastIndex, t)
    | none => .error .lastEntryTerm

def isUpToDate (l : RaftLog) (index term : Nat) : Except Panic Bool := do
  let (lastIndex, lastTerm) ← l.lastEntryID
  .ok (decide (lastTerm < term) || (decide (term = lastTerm) && decide (lastIndex ≤ index)))

def restore (l : RaftLog) (snapIndex : Nat) : RaftLog where
  storage := l.storage
  unstable := { offset := snapIndex + 1, array := l.unstable.array + 1 }
  committed := max l.committed snapIndex
  applied := max l.applied snapIndex

@[simp] theorem restore_storage (l : RaftLog) (i : Nat) : (l.restore i).storage = l.storage := rfl

end RaftLog

end Kvgo

import Kvgo.Raft.Message

/-! The in-memory side of `DurableStorage` (`storage.go`): the hard state, the
entries above the snapshot boundary and the boundary itself. The files behind
it are added by a later module; a storage operation that fails on the files
never reaches the assignments modelled here. -/

namespace Kvgo

structure MemStorage where
  hd : HardState := {}
  entries : List Entry := []
  snap : SnapshotMeta := {}
  deriving DecidableEq, Repr

namespace MemStorage

def firstIndex (s : MemStorage) : Nat :=
  match s.entries with
  | e :: _ => e.index
  | [] => if s.snap.lastIncludedIndex = 0 then 0 else s.snap.lastIncludedIndex + 1

def lastIndex (s : MemStorage) : Nat :=
  match s.entries.getLast? with
  | some e => e.index
  | none => s.snap.lastIncludedIndex

/-- `Entries(lo, hi)`; `none` stands for every error the source returns. A slice
bound past the last entry is taken as a panic, whatever the capacity. -/
def getEntries (s : MemStorage) (lo hi : Nat) : Except Panic (Option (List Entry)) :=
  if hi < lo then .ok none
  else if 0 < s.snap.lastIncludedIndex ∧ lo ≤ s.snap.lastIncludedIndex then .ok none
  else
    let first := s.firstIndex
    let availableHi := if s.entries = [] then first else s.lastIndex + 1
    if lo < first ∨ availableHi < hi then .ok none
    else if lo = hi then .ok (some [])
    else if s.entries.length < hi - first then .error .runtime
    else .ok (some ((s.entries.take (hi - first)).drop (lo - first)))

def getTerm (s : MemStorage) (i : Nat) : Except Panic (Option Nat) :=
  if i < s.snap.lastIncludedIndex then .ok none
  else if s.lastIndex < i then .ok none
  else if i = s.snap.lastIncludedIndex then .ok (some s.snap.lastIncludedTerm)
  else if i < s.firstIndex then .error .runtime
  else
    match s.entries[i - s.firstIndex]? with
    | some e => .ok (some e.term)
    | none => .error .runtime

/-- `filterRetainedEntries`: the loop drops the leading entries at or below the boundary. -/
def filterRetainedEntries (entries : List Entry) (lastIncludedIndex : Nat) : List Entry :=
  if lastIncludedIndex = 0 then entries
  else entries.dropWhile (fun e => decide (e.index ≤ lastIncludedIndex))

def truncateAndAppend (s : MemStorage) (entries : List Entry) :
    Except Panic (MemStorage × Option StorageError) :=
  match entries with
  | [] => .ok (s, none)
  | e :: _ =>
    if s.entries = [] then
      let expected :=
        if 0 < s.snap.lastIncludedIndex then s.snap.lastIncludedIndex + 1 else 1
      if e.index ≠ expected then .ok (s, some .nonContiguous)
      else .ok ({ s with entries := entries }, none)
    else if e.index = s.lastIndex + 1 then
      .ok ({ s with entries := s.entries ++ entries }, none)
    else if s.lastIndex + 1 < e.index then .ok (s, some .nonContiguous)
    else if e.index ≤ s.firstIndex then .ok ({ s with entries := entries }, none)
    else
      let keep := e.index - s.firstIndex
      if s.entries.length < keep then .error .runtime
      else .ok ({ s with entries := s.entries.take keep ++ entries }, none)

def effectiveHard (s : MemStorage) (hard : Option HardState) : HardState :=
  if isEmptyHardState hard then s.hd else hard.getD s.hd

def save (s : MemStorage) (entries : List Entry) (hard : Option HardState) :
    Except Panic (MemStorage × Option StorageError) :=
  if entries = [] ∧ isEmptyHardState hard then .ok (s, none)
  else truncateAndAppend { s with hd := s.effectiveHard hard } entries

def applySnapshot (s : MemStorage) (snap : SnapshotMeta) : MemStorage × Option StorageError :=
  if 0 < s.snap.lastIncludedIndex ∧ snap.lastIncludedIndex ≤ s.snap.lastIncludedIndex then
    (s, some .snapOutOfDate)
  else
    ({ s with snap := snap, entries := filterRetainedEntries s.entries snap.lastIncludedIndex }, none)

def termWithoutLock (s : MemStorage) (index : Nat) : Except Panic (Option Nat) :=
  if 0 < s.snap.lastIncludedIndex ∧ index = s.snap.lastIncludedIndex then
    .ok (some s.snap.lastIncludedTerm)
  else if s.entries = [] ∨ index < s.firstIndex ∨ s.lastIndex < index then .ok none
  else
    match s.entries[index - s.firstIndex]? with
    | some e => .ok (some e.term)
    | none => .error .runtime

def compactLocked (s : MemStorage) (index : Nat) : Except Panic (MemStorage × Option StorageError) :=
  if 0 < s.snap.lastIncludedIndex ∧ index ≤ s.snap.lastIncludedIndex then
    .ok (s, some .compacted)
  else if s.entries = [] ∨ s.lastIndex < index then .ok (s, some .compactOutOfRange)
  else do
    match ← s.termWithoutLock index with
    | none => .ok (s, some .notAvailable)
    | some term =>
      .ok ({ s with
        entries := s.entries.dropWhile (fun e => decide (e.index ≤ index))
        snap := ⟨index, term⟩ }, none)

def maybeCompact (s : MemStorage) (compactThreshold appliedIndex : Nat) :
    Except Panic (MemStorage × Option StorageError) :=
  if appliedIndex ≤ s.snap.lastIncludedIndex then .ok (s, none)
  else if appliedIndex - s.snap.lastIncludedIndex < compactThreshold then .ok (s, none)
  else s.compactLocked appliedIndex

theorem save_hd {s s' : MemStorage} {entries : List Entry} {hard : Option HardState}
    {err : Option StorageError} (ok : s.save entries hard = .ok (s', err)) :
    s'.hd = s.effectiveHard hard := by
  unfold save at ok
  split at ok
  · rename_i nothing
    cases ok
    simp [effectiveHard, nothing.2]
  · simp only [truncateAndAppend] at ok
    repeat' split at ok
    all_goals (cases ok <;> rfl)

end MemStorage

end Kvgo

import Kvgo.Raft.LogView

/-! The unstable log as the slice of pointers that it is in the code.

`entries[:n]` may reach past the length of the slice, up to the capacity of its array, and then brings in
nil pointers. This happens if a `MsgApp` matches an entry that only the storage still has, above the last
one of the log. An append that starts inside the log is the one of `Unstable`. -/

namespace Kvgo

structure Slots where
  entries : List (Option Entry)
  offset : Nat
  /-- The backing array past the length of `entries`. -/
  spare : List (Option Entry) := []
  deriving DecidableEq, Repr

namespace Slots

def push (u : Slots) (entries : List Entry) (room : Nat) : Slots :=
  if entries.length ≤ u.spare.length then
    { u with entries := u.entries ++ entries.map some, spare := u.spare.drop entries.length }
  else
    { u with entries := u.entries ++ entries.map some, spare := List.replicate room none }

def truncateAndAppend (u : Slots) (entries : List Entry) (room : Nat) : Except Panic Slots :=
  match entries with
  | [] => .error .runtime
  | e :: _ =>
    if e.index ≤ u.offset then
      .ok { entries := entries.map some, offset := e.index, spare := List.replicate room none }
    else if e.index = u.offset + u.entries.length then .ok (u.push entries room)
    else
      let backing := u.entries ++ u.spare
      let n := e.index - u.offset
      if backing.length < n then .error .runtime
      else .ok ({ u with entries := backing.take n, spare := backing.drop n }.push entries room)

/-- The last entry is read; a nil pointer there would be a panic. -/
def maybeLastIndex (u : Slots) : Except Panic (Option Nat) :=
  match u.entries.getLast? with
  | none => .ok none
  | some none => .error .runtime
  | some (some e) => .ok (some e.index)

def maybeTerm (u : Slots) (index : Nat) : Except Panic (Option Nat) :=
  if index < u.offset then .ok none
  else
    match u.entries[index - u.offset]? with
    | none => .ok none
    | some none => .error .runtime
    | some (some e) => .ok (some e.term)

end Slots

def Unstable.slots (u : Unstable) : Slots := ⟨u.entries.map some, u.offset, u.spare⟩

structure SlotLog where
  storage : MemStorage
  unstable : Slots
  committed : Nat
  applied : Nat

def RaftLog.slots (l : RaftLog) : SlotLog := ⟨l.storage, l.unstable.slots, l.committed, l.applied⟩

namespace SlotLog

def getTerm (l : SlotLog) (i : Nat) : Except Panic (Option Nat) :=
  if i = 0 then .ok (some 0)
  else do
    match ← l.unstable.maybeTerm i with
    | some t => .ok (some t)
    | none => l.storage.getTerm i

def matchTerm (l : SlotLog) (i term : Nat) : Except Panic Bool := do
  let t ← l.getTerm i
  .ok (t == some term)

def lastIndex (l : SlotLog) : Except Panic Nat := do
  .ok ((← l.unstable.maybeLastIndex).getD l.storage.lastIndex)

def slice (l : SlotLog) (lo hi : Nat) : Except Panic (List (Option Entry)) :=
  if hi ≤ lo then .ok []
  else do
    let stored ←
      if lo < l.unstable.offset then l.storage.getEntries lo (min hi l.unstable.offset)
      else .ok (some [])
    match stored with
    | none => .ok []
    | some ents =>
      if hi ≤ l.unstable.offset then .ok (ents.map some)
      else
        let unstableLo := max lo l.unstable.offset - l.unstable.offset
        let unstableHi := min (hi - l.unstable.offset) l.unstable.entries.length
        if unstableHi < unstableLo then .error .runtime
        else .ok (ents.map some ++ (l.unstable.entries.take unstableHi).drop unstableLo)

def nextCommittedEnts (l : SlotLog) : Except Panic (List (Option Entry)) :=
  if l.committed ≤ l.applied then .ok [] else l.slice (l.applied + 1) (l.committed + 1)

def commitTo (l : SlotLog) (i : Nat) : Except Panic SlotLog := do
  if i ≤ l.committed then .ok l
  else if (← l.lastIndex) < i then .error .commitOutOfRange
  else .ok { l with committed := i }

def appendEntries (l : SlotLog) (ents : List Entry) (room : Nat) : Except Panic SlotLog :=
  match ents with
  | [] => .ok l
  | e :: _ =>
    if decr e.index < l.committed then .error .afterBeforeCommitted
    else do
      let unstable ← l.unstable.truncateAndAppend ents room
      .ok { l with unstable }

/-- What `handleAppendEntries` does to the log. -/
def handleAppendEntries (l : SlotLog) (m : Message) (room : Nat) : Except Panic SlotLog := do
  if ← l.matchTerm m.index m.logTerm then
    let l ← l.appendEntries m.entries room
    if l.committed < m.commit then l.commitTo (min m.commit (← l.lastIndex)) else .ok l
  else .ok l

end SlotLog

/-! An append inside the log. -/

theorem Unstable.push_slots (u : Unstable) (entries : List Entry) (room : Nat) :
    (u.push entries room).slots = u.slots.push entries room := by
  unfold Unstable.push Slots.push Unstable.slots
  split <;> simp

theorem Unstable.truncateAndAppend_slots {u : Unstable} {e : Entry} {rest : List Entry} {room : Nat}
    (inside : e.index ≤ u.offset + u.entries.length) :
    u.slots.truncateAndAppend (e :: rest) room = (u.truncateAndAppend (e :: rest) room).map Unstable.slots := by
  have offset : u.slots.offset = u.offset := rfl
  have length : u.slots.entries.length = u.entries.length := List.length_map _
  simp only [Slots.truncateAndAppend, Unstable.truncateAndAppend, offset, length]
  by_cases low : e.index ≤ u.offset
  · rw [if_pos low, if_pos low]
    rfl
  by_cases next : e.index = u.offset + u.entries.length
  · rw [if_neg low, if_pos next, if_neg low, if_pos next]
    exact congrArg Except.ok (push_slots u _ room).symm
  -- the cut stays inside the slice, so no nil pointer comes in
  have short : e.index - u.offset ≤ u.entries.length := by omega
  have whole : ¬ (u.slots.entries ++ u.slots.spare).length < e.index - u.offset := by
    rw [List.length_append, length]
    omega
  rw [if_neg low, if_neg next, if_neg low, if_neg next, if_neg whole, RaftLog.resize_of_le short]
  refine congrArg Except.ok (Eq.trans ?_ (push_slots _ _ room).symm)
  congr 1
  simp only [Unstable.slots, Unstable.backing, Slots.mk.injEq, and_true]
  rw [List.take_append_of_le_length (by simpa using short), List.map_take]

theorem RaftLog.appendEntries_slots {l : RaftLog} {ents : List Entry} {room : Nat}
    (inside : ∀ e ∈ ents.head?, e.index ≤ l.unstable.offset + l.unstable.entries.length) :
    l.slots.appendEntries ents room = (l.appendEntries ents room).map RaftLog.slots := by
  cases ents with
  | nil => rfl
  | cons e rest =>
    have committed : l.slots.committed = l.committed := rfl
    simp only [SlotLog.appendEntries, RaftLog.appendEntries, committed]
    by_cases early : decr e.index < l.committed
    · rw [if_pos early, if_pos early]
      rfl
    · have cut : l.slots.unstable.truncateAndAppend (e :: rest) room = _ :=
        Unstable.truncateAndAppend_slots (inside e rfl)
      rw [if_neg early, if_neg early, cut]
      cases l.unstable.truncateAndAppend (e :: rest) room <;> rfl

/-! An append above the log. -/

namespace SlotLog

/-- Five entries of term 1 in the storage, none of them known to be committed. -/
def fiveStored : RaftLog :=
  RaftLog.newRaftLog { entries := [⟨1, 1, []⟩, ⟨2, 1, []⟩, ⟨3, 1, []⟩, ⟨4, 1, []⟩, ⟨5, 1, []⟩], hd := { term := 1 } }

/-- The leader of term 2 replaces entries 2 to 5 by its own 2 to 4. -/
def shorterLog : Message :=
  { type := .msgApp, fromId := 2, toId := 1, term := 2, index := 1, logTerm := 1,
    entries := [⟨2, 2, []⟩, ⟨3, 2, []⟩, ⟨4, 2, []⟩] }

/-- The leader of term 3, which still has entry 5 of term 1, sends entry 6 and its commit. -/
def nextLeader : Message :=
  { type := .msgApp, fromId := 3, toId := 1, term := 3, index := 5, logTerm := 1, commit := 6,
    entries := [⟨6, 3, []⟩] }

/-- Before the entries of term 2 are saved the storage still has the old entry 5, so the second append matches; the
slice has room for four entries, and the nil pointer in the fourth place is delivered as committed. -/
theorem nil_delivered : (do
      let l ← fiveStored.slots.handleAppendEntries shorterLog 1
      let l ← l.handleAppendEntries nextLeader 0
      .ok (l.committed, ← l.nextCommittedEnts) : Except Panic (Nat × List (Option Entry))) =
    .ok (6, [some ⟨1, 1, []⟩, some ⟨2, 2, []⟩, some ⟨3, 2, []⟩, some ⟨4, 2, []⟩, none, some ⟨6, 3, []⟩]) := by
  decide +kernel

end SlotLog

end Kvgo

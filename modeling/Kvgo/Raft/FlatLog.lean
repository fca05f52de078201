import Kvgo.Raft.Cursors

/-! The log in two layers, against one flat list of entries that is only ever cut at the
first index of a batch and continued with it. -/

namespace Kvgo

/-! No slice expression of the two layers is out of range. -/

theorem Unstable.truncateAndAppend_ok {u : Unstable} {e : Entry} {rest : List Entry} (room : Nat)
    (bound : e.index ≤ u.offset + u.entries.length) :
    ∃ u', u.truncateAndAppend (e :: rest) room = .ok u' := by
  unfold Unstable.truncateAndAppend
  simp only
  split
  · exact ⟨_, rfl⟩
  split
  · exact ⟨_, rfl⟩
  rename_i above inside
  have short : e.index - u.offset ≤ u.entries.length := by omega
  have front : u.backing.take (e.index - u.offset) = (u.entries.take (e.index - u.offset)).map some := by
    unfold backing
    rw [List.take_append_of_le_length (by simpa using short), List.map_take]
  have whole : ((u.backing.take (e.index - u.offset)).filterMap id).length = e.index - u.offset := by
    rw [front, List.filterMap_map]
    simp [short]
  have resized : ∃ kept, u.resize (e.index - u.offset) = .ok kept := by
    unfold Unstable.resize
    rw [if_neg (by simp [backing]; omega)]
    simp only
    rw [if_neg (by omega)]
    exact ⟨_, rfl⟩
  obtain ⟨kept, resized⟩ := resized
  rw [resized]
  exact ⟨_, rfl⟩

namespace MemStorage

variable {s : MemStorage} {first : Nat}

theorem Stored.save_total (stored : Stored s first) (ents : List Entry) (hard : Option HardState) :
    ∃ result, s.save ents hard = .ok result := by
  have last := stored.lastIndex
  unfold MemStorage.save
  split
  · exact ⟨_, rfl⟩
  unfold MemStorage.truncateAndAppend
  split
  · exact ⟨_, rfl⟩
  split
  · dsimp only
    split <;> split <;> exact ⟨_, rfl⟩
  rename_i some
  split
  · exact ⟨_, rfl⟩
  split
  · exact ⟨_, rfl⟩
  split
  · exact ⟨_, rfl⟩
  rename_i e _ _ _ beyond _
  have start : s.firstIndex = first := stored.firstIndex some
  change ¬ s.lastIndex + 1 < e.index at beyond
  rw [if_neg]
  · exact ⟨_, rfl⟩
  · show ¬ s.entries.length < e.index - s.firstIndex
    omega

theorem Stored.entryAt_some (stored : Stored s first) {i : Nat} (above : s.snap.lastIncludedIndex < i)
    (bound : i ≤ s.lastIndex) : ∃ e, s.entryAt i = some e := by
  have last := stored.lastIndex
  have low := stored.low
  rw [stored.entryAt (by omega)]
  exact ⟨_, List.getElem?_eq_getElem (by omega)⟩

theorem Stored.maybeCompact_total (stored : Stored s first) (threshold j : Nat) :
    ∃ result, s.maybeCompact threshold j = .ok result := by
  have last := stored.lastIndex
  unfold MemStorage.maybeCompact
  split
  · exact ⟨_, rfl⟩
  rename_i above
  split
  · exact ⟨_, rfl⟩
  unfold compactLocked
  split
  · exact ⟨_, rfl⟩
  split
  · exact ⟨_, rfl⟩
  rename_i inside
  simp only [not_or, Nat.not_lt] at inside
  obtain ⟨e, here⟩ := stored.entryAt_some (by omega) inside.2
  have start := stored.firstIndex inside.1
  have low := stored.low
  rw [stored.entryAt (by omega)] at here
  have term : s.termWithoutLock j = .ok (some e.term) := by
    unfold termWithoutLock
    rw [if_neg (by omega), if_neg (by simp [inside.1, start]; omega), start, here]
  rw [term]
  exact ⟨_, rfl⟩

theorem Stored.getTerm (stored : Stored s first) {i : Nat} (above : s.snap.lastIncludedIndex < i)
    (bound : i ≤ s.lastIndex) : s.getTerm i = .ok ((s.entryAt i).map Entry.term) := by
  have last := stored.lastIndex
  have low := stored.low
  have some : s.entries ≠ [] := by
    intro none
    rw [none, List.length_nil] at last
    omega
  obtain ⟨e, here⟩ := stored.entryAt_some above bound
  rw [here]
  rw [stored.entryAt (by omega)] at here
  unfold MemStorage.getTerm
  rw [if_neg (by omega), if_neg (by omega), if_neg (by omega), stored.firstIndex some, if_neg (by omega), here]
  rfl

end MemStorage

namespace RaftLog

variable {l l' : RaftLog}

structure Continued (l : RaftLog) (first : Nat) (ents : List Entry) (l' : RaftLog) : Prop where
  onward : Onward l l'
  committed : l'.committed = l.committed
  last : l'.lastIndex + 1 = first + ents.length
  offset : l'.unstable.offset = min l.unstable.offset first
  entry : ∀ i, l'.entryAt i = if i < first then l.entryAt i else ents[i - first]?

theorem Shape.append_reach (good : Shape l) {ents : List Entry} {first : Nat} (room : Nat)
    (indexed : IndexedFrom first ents) (some : ents ≠ []) (above : l.committed < first)
    (reach : first ≤ l.unstable.offset + l.unstable.entries.length) :
    ∃ l', l.appendEntries ents room = .ok l' ∧ Continued l first ents l' := by
  cases ents with
  | nil => exact absurd rfl some
  | cons e rest =>
    have here : e.index = first := indexed.head
    obtain ⟨unstable, cut⟩ : ∃ u', l.unstable.truncateAndAppend (e :: rest) room = .ok u' :=
      Unstable.truncateAndAppend_ok room (here ▸ reach)
    have ok : l.appendEntries (e :: rest) room = .ok { l with unstable } := by
      unfold RaftLog.appendEntries
      simp only
      rw [here, decr_pos _ (by omega), if_neg (by omega), cut]
      rfl
    have onward := good.appendEntries indexed (by omega) ok
    have cut := good.placed.truncateAndAppend indexed (by omega) cut
    obtain ⟨kept, entries, place, agree⟩ := cut.entries
    have offset := cut.offset
    have last := lastIndex_cons (l := { l with unstable }) cut.placed.indexed (by
      show unstable.entries ≠ []
      rw [entries]
      simp)
    change _ = unstable.offset + unstable.entries.length at last
    rw [entries, List.length_append] at last
    refine ⟨_, ok, onward, rfl, by omega, offset, fun i => ?_⟩
    simp only [entryAt, entries]
    by_cases below : i < first
    · rw [if_pos below]
      by_cases upper : unstable.offset ≤ i
      · have same : unstable.offset = l.unstable.offset := by omega
        rw [if_pos upper, if_pos (by omega), List.getElem?_append_left (by omega),
          agree _ (by omega) (by omega), same]
      · rw [if_neg upper, if_neg (by omega)]
    · rw [if_neg below, if_pos (by omega), List.getElem?_append_right (by omega)]
      congr 1
      omega

theorem Shape.append_ok (good : Shape l) (tight : Tight l) {ents : List Entry} {first : Nat} (room : Nat)
    (indexed : IndexedFrom first ents) (some : ents ≠ []) (above : l.committed < first)
    (bound : first ≤ l.lastIndex + 1) :
    ∃ l', l.appendEntries ents room = .ok l' ∧ Continued l first ents l' := by
  refine good.append_reach room indexed some above ?_
  by_cases none : l.unstable.entries = []
  · rw [lastIndex_nil none] at bound
    rw [tight none]
    omega
  · rw [← lastIndex_cons good.placed.indexed none]
    exact bound

/-- Promoting leaves the log as it is, or hands it to the storage up to an index at which
the term is the one that was saved. -/
theorem stableTo_cases (l : RaftLog) (index term : Nat) : l.stableTo index term = l ∨
    ∃ e, l.unstable.offset ≤ index ∧ l.entryAt index = some e ∧ e.term = term ∧
      (l.stableTo index term).unstable.offset = index + 1 ∧
      (l.stableTo index term).unstable.entries = l.unstable.entries.drop (index - l.unstable.offset + 1) ∧
      ∀ i, (l.stableTo index term).entryAt i = if i ≤ index then l.storage.entryAt i else l.entryAt i := by
  by_cases low : index < l.unstable.offset
  · left
    unfold stableTo Unstable.stableTo
    rw [if_pos low]
  cases found : l.unstable.entries[index - l.unstable.offset]? with
  | none =>
    left
    unfold stableTo Unstable.stableTo
    rw [if_neg low, found]
  | some e =>
    by_cases same : e.term = term
    · right
      have moved : l.stableTo index term = { l with unstable := { l.unstable with
          entries := l.unstable.entries.drop (index - l.unstable.offset + 1), offset := index + 1 } } := by
        unfold stableTo Unstable.stableTo
        rw [if_neg low, found]
        simp [same]
      refine ⟨e, by omega, by rw [entryAt, if_pos (by omega), found], same, by rw [moved], by rw [moved],
        fun i => ?_⟩
      rw [moved]
      unfold entryAt
      dsimp only
      by_cases upper : i ≤ index
      · rw [if_neg (by omega), if_pos upper]
      · rw [if_pos (by omega), if_neg upper, if_pos (by omega), List.getElem?_drop]
        congr 1
        omega
    · left
      unfold stableTo Unstable.stableTo
      rw [if_neg low, found]
      simp [same]

end RaftLog

structure FlatLog where
  base : SnapshotMeta
  entries : List Entry

namespace FlatLog

def lastIndex (f : FlatLog) : Nat := f.base.lastIncludedIndex + f.entries.length

def entryAt (f : FlatLog) (i : Nat) : Option Entry :=
  if i ≤ f.base.lastIncludedIndex then none else f.entries[i - (f.base.lastIncludedIndex + 1)]?

def term (f : FlatLog) (i : Nat) : Option Nat :=
  if i = 0 then some 0
  else if i = f.base.lastIncludedIndex then some f.base.lastIncludedTerm
  else (f.entryAt i).map Entry.term

def lastEntryID (f : FlatLog) : Nat × Nat := (f.lastIndex, (f.term f.lastIndex).getD 0)

def slice (f : FlatLog) (lo hi : Nat) : List Entry :=
  (f.entries.drop (lo - (f.base.lastIncludedIndex + 1))).take (hi - lo)

def replace (f : FlatLog) (ents : List Entry) : FlatLog :=
  match ents with
  | [] => f
  | e :: _ => { f with entries := f.entries.take (e.index - (f.base.lastIncludedIndex + 1)) ++ ents }

def Matching (f g : FlatLog) : Prop :=
  f.base = g.base ∧ ∀ k < f.entries.length, k < g.entries.length →
    f.entries[k]?.map Entry.term = g.entries[k]?.map Entry.term →
      f.entries.take (k + 1) = g.entries.take (k + 1)

instance (f g : FlatLog) : Decidable (Matching f g) := by
  unfold Matching
  infer_instance

variable {f g : FlatLog}

theorem Matching.refl (f : FlatLog) : Matching f f := ⟨rfl, fun _ _ _ _ => rfl⟩

theorem Matching.agree (matching : Matching f g) {i : Nat} {d e : Entry} (here : f.entryAt i = some d)
    (there : g.entryAt i = some e) (same : d.term = e.term) {j : Nat} (below : j ≤ i) :
    f.entryAt j = g.entryAt j := by
  obtain ⟨base, matching⟩ := matching
  unfold entryAt at here there ⊢
  rw [← base] at there ⊢
  split at here
  · cases here
  rename_i above
  rw [if_neg above] at there
  split
  · rfl
  have agree := matching _ (List.getElem?_eq_some_iff.mp here).1 (List.getElem?_eq_some_iff.mp there).1
    (by rw [here, there, Option.map_some, Option.map_some, same])
  have at_j := congrArg (fun L : List Entry => L[j - (f.base.lastIncludedIndex + 1)]?) agree
  simpa only [List.getElem?_take, show j - (f.base.lastIncludedIndex + 1) <
    i - (f.base.lastIncludedIndex + 1) + 1 by omega, if_true] using at_j

theorem replace_entryAt {first : Nat} {ents : List Entry} (indexed : IndexedFrom first ents)
    (some : ents ≠ []) (above : f.base.lastIncludedIndex < first) (bound : first ≤ f.lastIndex + 1) (i : Nat) :
    (f.replace ents).entryAt i = if i < first then f.entryAt i else ents[i - first]? := by
  cases ents with
  | nil => exact absurd rfl some
  | cons e rest =>
    have here : e.index = first := indexed.head
    unfold lastIndex at bound
    have size : (f.entries.take (first - (f.base.lastIncludedIndex + 1))).length =
        first - (f.base.lastIncludedIndex + 1) := by
      rw [List.length_take]
      omega
    unfold entryAt replace
    simp only [here]
    by_cases low : i ≤ f.base.lastIncludedIndex
    · rw [if_pos low, if_pos (by omega), if_pos low]
    · rw [if_neg low, if_neg low]
      by_cases below : i < first
      · rw [if_pos below, List.getElem?_append_left (by omega), List.getElem?_take, if_pos (by omega)]
      · rw [if_neg below, List.getElem?_append_right (by omega), size]
        congr 1
        omega

theorem replace_lastIndex {first : Nat} {ents : List Entry} (indexed : IndexedFrom first ents)
    (some : ents ≠ []) (above : f.base.lastIncludedIndex < first) (bound : first ≤ f.lastIndex + 1) :
    (f.replace ents).lastIndex + 1 = first + ents.length := by
  cases ents with
  | nil => exact absurd rfl some
  | cons e rest =>
    have here : e.index = first := indexed.head
    unfold lastIndex at bound ⊢
    simp only [replace, here, List.length_append, List.length_take]
    omega

theorem replace_base (f : FlatLog) (ents : List Entry) : (f.replace ents).base = f.base := by
  unfold replace
  split <;> rfl

theorem entryAt_some {i : Nat} (above : f.base.lastIncludedIndex < i) (bound : i ≤ f.lastIndex) :
    ∃ e, f.entryAt i = some e := by
  unfold lastIndex at bound
  rw [entryAt, if_neg (by omega)]
  exact ⟨_, List.getElem?_eq_getElem (by omega)⟩

end FlatLog

/-- A log in two layers and its host, with the flat log and every flat log there was. -/
structure TwoLayer where
  node : Node
  phase : Phase
  flat : FlatLog
  past : List FlatLog
  panicked : Bool := false

inductive LogEvent where
  | append (ents : List Entry) (room : Nat)
  | commitTo (index : Nat)
  | ready
  | save
  | advance
  | compact (index : Nat)

namespace TwoLayer

open Node

def start (r : Raft) : TwoLayer where
  node := { r }
  phase := .idle
  flat := ⟨r.raftLog.storage.snap, r.raftLog.storage.entries⟩
  past := [⟨r.raftLog.storage.snap, r.raftLog.storage.entries⟩]

def withLog (t : TwoLayer) (log : Except Panic RaftLog) : TwoLayer :=
  match log with
  | .error _ => { t with panicked := true }
  | .ok raftLog => { t with node := t.node.withRaft { t.node.r with raftLog } }

def withStorage (t : TwoLayer) (result : Except Panic (MemStorage × Option StorageError))
    (phase : Option StorageError → Phase) : TwoLayer :=
  match result with
  | .error _ => { t with panicked := true }
  | .ok (storage, err) => { t with node := Cluster.withStorage t.node storage, phase := phase err }

def step (threshold : Nat) (t : TwoLayer) (e : LogEvent) : TwoLayer :=
  if t.panicked then t
  else
    match e with
    | .append ents room =>
      { t.withLog (t.node.r.raftLog.appendEntries ents room) with
        flat := t.flat.replace ents
        past := t.flat.replace ents :: t.past }
    | .commitTo index => t.withLog (t.node.r.raftLog.commitTo index)
    | .ready =>
      if t.phase = .idle then
        match t.node.ready with
        | .error _ => { t with panicked := true }
        | .ok rd =>
          { t with
            node := ({ t.node with rd, rdArray := t.node.r.raftLog.unstable.array, readyc := true } : Node).accept
            phase := .accepted }
      else t
    | .save =>
      if t.phase = .accepted then
        t.withStorage (t.node.r.raftLog.storage.save t.node.rd.entries t.node.rd.hardState)
          (fun err => if err.isSome then .stopped else .saved)
      else t
    | .advance =>
      if t.phase = .saved then
        match t.node.advance with
        | .error _ => { t with panicked := true }
        | .ok node => { t with node, phase := .idle }
      else t
    | .compact index =>
      t.withStorage (t.node.r.raftLog.storage.maybeCompact threshold index) (fun _ => t.phase)

def secured (node : Node) (phase : Phase) : Nat :=
  node.r.raftLog.applied + if phase = .saved then node.rd.committedEntries.length else 0

/-- A batch is consecutive, starts above the committed entries and leaves no gap; the
logs it makes satisfy Log Matching. Only what was delivered is compacted. While a `Ready`
is out, no entry of it is overwritten in the array that it shares with the log. -/
def Orderly (threshold : Nat) (t : TwoLayer) : LogEvent → Prop
  | .append ents room =>
      (∀ e ∈ ents.head?, t.node.r.raftLog.committed < e.index ∧ e.index ≤ t.node.r.raftLog.lastIndex + 1 ∧
        IndexedFrom e.index ents) ∧
      (∀ g ∈ t.past, FlatLog.Matching (t.flat.replace ents) g) ∧
      (t.step threshold (.append ents room)).node.rd.entries = t.node.rd.entries
  | .commitTo index => index ≤ t.node.r.raftLog.lastIndex
  | .compact index => index ≤ secured t.node t.phase
  | _ => True

instance (threshold : Nat) (t : TwoLayer) (e : LogEvent) : Decidable (Orderly threshold t e) := by
  unfold Orderly
  split <;> infer_instance

/-- A `Ready` that is out, built when the flat log was `g`. -/
structure Loan (node : Node) (phase : Phase) (o : Nat) (g flat : FlatLog) : Prop where
  indexed : IndexedFrom o node.rd.entries
  fresh : ∀ k e, node.rd.entries[k]? = some e → g.entryAt (o + k) = some e
  below : ∀ i, node.r.raftLog.storage.snap.lastIncludedIndex < i → i < o →
    node.r.raftLog.storage.entryAt i = g.entryAt i
  saved : phase = .saved → node.rd.entries ≠ [] → ∀ i, node.r.raftLog.storage.snap.lastIncludedIndex < i →
    i < o + node.rd.entries.length → node.r.raftLog.storage.entryAt i = g.entryAt i
  empty : node.rd.entries = [] → node.r.raftLog.applied + node.rd.committedEntries.length < o
  settled : ∀ i, i ≤ node.r.raftLog.applied + node.rd.committedEntries.length → flat.entryAt i = g.entryAt i

structure Refines (t : TwoLayer) : Prop where
  live : t.panicked = false
  kept : Kept t.node t.phase
  tight : RaftLog.Tight t.node.r.raftLog
  quiet : t.node.stepsOnAdvance = [] ∧ t.node.r.msgsAfterAppend = [] ∧ t.node.readyc = false
  phases : t.phase ≠ .sent
  shared : t.node.rdArray = t.node.r.raftLog.unstable.array →
    sharedEntries t.node.r.raftLog.unstable t.node.rd = t.node.rd.entries
  contiguous : IndexedFrom (t.flat.base.lastIncludedIndex + 1) t.flat.entries
  begins : t.flat.base.lastIncludedIndex ≤ t.node.r.raftLog.storage.snap.lastIncludedIndex ∧
    t.flat.base.lastIncludedIndex < t.node.r.raftLog.unstable.offset
  bounded : t.node.r.raftLog.storage.snap.lastIncludedIndex ≤ secured t.node t.phase
  boundary : t.node.r.raftLog.storage.snap.lastIncludedIndex = 0 ∨
    t.flat.term t.node.r.raftLog.storage.snap.lastIncludedIndex =
      some t.node.r.raftLog.storage.snap.lastIncludedTerm
  last : t.node.r.raftLog.lastIndex = t.flat.lastIndex
  entry : ∀ i, t.node.r.raftLog.storage.snap.lastIncludedIndex < i ∨ t.node.r.raftLog.unstable.offset ≤ i →
    t.node.r.raftLog.entryAt i = t.flat.entryAt i
  durable : ∀ i, t.node.r.raftLog.storage.snap.lastIncludedIndex < i → i ≤ secured t.node t.phase →
    t.node.r.raftLog.storage.entryAt i = t.flat.entryAt i
  matching : t.flat ∈ t.past ∧ ∀ g ∈ t.past, FlatLog.Matching t.flat g
  out : t.phase ≠ .idle → ∃ o, ∃ g ∈ t.past, Loan t.node t.phase o g t.flat

theorem secured_handed {node : Node} {phase : Phase} (kept : Kept node phase) :
    secured node phase ≤ node.handed := by
  unfold secured handed
  split
  · rename_i saved
    rw [(kept.arms.resolve_left (by simp [saved])).2.1]
    exact Nat.le_refl _
  · omega

theorem secured_le {node : Node} {phase : Phase} (kept : Kept node phase) :
    secured node phase ≤ node.r.raftLog.committed :=
  (secured_handed kept).trans kept.handed_le

theorem offered_le {node : Node} {phase : Phase} (kept : Kept node phase) (out : phase ≠ .idle) :
    node.r.raftLog.applied + node.rd.committedEntries.length ≤ node.r.raftLog.committed := by
  obtain ⟨o, offer⟩ := kept.offer (.inr (kept.arms.resolve_left (fun idle => out idle.1)).2.1)
  exact offer.bound

/-- The log moved on under the host. -/
theorem Refines.work {t : TwoLayer} (refines : t.Refines) {raftLog : RaftLog} {flat : FlatLog}
    {past : List FlatLog} (onward : RaftLog.Onward t.node.r.raftLog raftLog)
    (base : flat.base = t.flat.base)
    (contiguous : IndexedFrom (flat.base.lastIncludedIndex + 1) flat.entries)
    (offset : flat.base.lastIncludedIndex < raftLog.unstable.offset)
    (last : raftLog.lastIndex = flat.lastIndex)
    (entry : ∀ i, t.node.r.raftLog.storage.snap.lastIncludedIndex < i ∨ raftLog.unstable.offset ≤ i →
      raftLog.entryAt i = flat.entryAt i)
    (settled : ∀ i, i ≤ t.node.r.raftLog.committed → flat.entryAt i = t.flat.entryAt i)
    (matching : flat ∈ past ∧ ∀ g ∈ past, FlatLog.Matching flat g) (older : ∀ g ∈ t.past, g ∈ past)
    (calm : (t.node.withRaft { t.node.r with raftLog }).rd.entries = t.node.rd.entries) :
    Refines { t with node := t.node.withRaft { t.node.r with raftLog }, flat, past } := by
  obtain ⟨r, steps, prevHard, readyc, advancec⟩ := withRaft_rest t.node { t.node.r with raftLog }
  obtain ⟨kept, _⟩ : Kept (t.node.withRaft { t.node.r with raftLog }) t.phase ∧
      Grows t.node (t.node.withRaft { t.node.r with raftLog }) 0 :=
    refines.kept.onward onward refines.kept.steady.after
  have next := withRaft_committedEntries t.node { t.node.r with raftLog }
  have secure : secured (t.node.withRaft { t.node.r with raftLog }) t.phase = secured t.node t.phase := by
    unfold secured
    rw [r, next]
    show raftLog.applied + _ = _
    rw [onward.applied]
  have below := secured_le refines.kept
  have low := refines.kept.steady.shape.low
  refine ⟨refines.live, kept, by rw [r]; exact onward.tight refines.tight,
    ⟨steps.trans refines.quiet.1, by rw [r]; exact refines.quiet.2.1, readyc.trans refines.quiet.2.2⟩,
    refines.phases, ?_, contiguous, ?_, ?_, ?_, by rw [r]; exact last, ?_, ?_, matching, fun out => ?_⟩
  · unfold Node.withRaft at calm ⊢
    split
    · rename_i same
      rw [if_pos same] at calm
      intro _
      dsimp only at calm ⊢
      rw [sharedEntries, calm]
      exact calm
    · rename_i other
      exact fun same => absurd same other
  · rw [r]
    show _ ≤ raftLog.storage.snap.lastIncludedIndex ∧ _
    rw [onward.storage, base]
    exact ⟨refines.begins.1, by rw [← base]; exact offset⟩
  · show _ ≤ secured (t.node.withRaft { t.node.r with raftLog }) t.phase
    rw [r, secure]
    show raftLog.storage.snap.lastIncludedIndex ≤ _
    rw [onward.storage]
    exact refines.bounded
  · rw [r]
    show raftLog.storage.snap.lastIncludedIndex = 0 ∨
      flat.term raftLog.storage.snap.lastIncludedIndex = some raftLog.storage.snap.lastIncludedTerm
    rw [onward.storage, FlatLog.term, base, settled _ low]
    exact refines.boundary
  · rw [r]
    show ∀ i, raftLog.storage.snap.lastIncludedIndex < i ∨ _ → _
    rw [onward.storage]
    exact entry
  · show ∀ i, _ → i ≤ secured (t.node.withRaft { t.node.r with raftLog }) t.phase → _
    rw [r, secure]
    show ∀ i, raftLog.storage.snap.lastIncludedIndex < i → _ → raftLog.storage.entryAt i = _
    rw [onward.storage]
    intro i above bound
    rw [settled i (bound.trans below)]
    exact refines.durable i above bound
  · obtain ⟨o, g, inside, loan⟩ := refines.out out
    have bound := offered_le refines.kept out
    refine ⟨o, g, older g inside, ?_⟩
    constructor
    · rw [calm]; exact loan.indexed
    · rw [calm]; exact loan.fresh
    · rw [r]
      show ∀ i, raftLog.storage.snap.lastIncludedIndex < i → _ → raftLog.storage.entryAt i = _
      rw [onward.storage]
      exact loan.below
    · rw [r, calm]
      show _ → _ → ∀ i, raftLog.storage.snap.lastIncludedIndex < i → _ → raftLog.storage.entryAt i = _
      rw [onward.storage]
      exact loan.saved
    · rw [r, calm, next]
      show _ → raftLog.applied + _ < _
      rw [onward.applied]
      exact loan.empty
    · rw [r, next]
      show ∀ i, i ≤ raftLog.applied + _ → _
      rw [onward.applied]
      intro i here
      rw [settled i (here.trans bound)]
      exact loan.settled i here

theorem Refines.append {threshold : Nat} {t : TwoLayer} {ents : List Entry} {room : Nat} (refines : t.Refines)
    (orderly : Orderly threshold t (.append ents room)) : Refines (t.step threshold (.append ents room)) := by
  obtain ⟨placed, matching, calm⟩ := orderly
  have shape := refines.kept.steady.shape
  have current : t.flat.replace ents ∈ t.flat.replace ents :: t.past ∧
      ∀ g ∈ t.flat.replace ents :: t.past, FlatLog.Matching (t.flat.replace ents) g := by
    refine ⟨by simp, fun g inside => ?_⟩
    rcases List.mem_cons.mp inside with rfl | old
    · exact .refl _
    · exact matching g old
  have older : ∀ g ∈ t.past, g ∈ t.flat.replace ents :: t.past := fun g old => List.mem_cons_of_mem _ old
  simp only [step, refines.live, Bool.false_eq_true, if_false] at calm ⊢
  cases ents with
  | nil =>
    exact refines.work (.refl shape) rfl refines.contiguous refines.begins.2 refines.last refines.entry
      (fun _ _ => rfl) current older calm
  | cons e rest =>
    obtain ⟨above, bound, indexed⟩ := placed e rfl
    obtain ⟨raftLog, ok, continued⟩ := shape.append_ok refines.tight room indexed (by simp) above bound
    rw [ok] at calm ⊢
    have low := shape.low
    have begins := refines.begins
    have after : t.flat.base.lastIncludedIndex < e.index := by omega
    have reach : e.index ≤ t.flat.lastIndex + 1 := by rw [← refines.last]; exact bound
    have entries := FlatLog.replace_entryAt indexed (by simp) after reach
    have length := FlatLog.replace_lastIndex indexed (by simp) after reach
    have last := continued.last
    have offset := continued.offset
    refine refines.work continued.onward (FlatLog.replace_base _ _) ?_ ?_ (by omega) (fun i here => ?_)
      (fun i here => ?_) current older calm
    · rw [FlatLog.replace_base]
      intro k d found
      have there : (t.flat.replace (e :: rest)).entryAt (t.flat.base.lastIncludedIndex + 1 + k) = some d := by
        rw [FlatLog.entryAt, FlatLog.replace_base, if_neg (by omega), ← found]
        congr 1
        omega
      rw [entries] at there
      split at there
      · rename_i below
        rw [FlatLog.entryAt, if_neg (by omega)] at there
        have := refines.contiguous _ d there
        omega
      · have := indexed _ d there
        omega
    · rw [FlatLog.replace_base]
      omega
    · rw [continued.entry, entries]
      split
      · exact refines.entry i (by omega)
      · rfl
    · rw [entries, if_pos (by omega)]

theorem Refines.commitTo {threshold : Nat} {t : TwoLayer} {index : Nat} (refines : t.Refines)
    (orderly : Orderly threshold t (.commitTo index)) : Refines (t.step threshold (.commitTo index)) := by
  have shape := refines.kept.steady.shape
  simp only [step, refines.live, Bool.false_eq_true, if_false]
  obtain ⟨raftLog, ok⟩ : ∃ raftLog, t.node.r.raftLog.commitTo index = .ok raftLog := by
    unfold RaftLog.commitTo
    split
    · exact ⟨_, rfl⟩
    · rw [if_neg (Nat.not_lt.mpr orderly)]
      exact ⟨_, rfl⟩
  rw [ok]
  have onward := shape.commitTo ok
  obtain ⟨unstable, storage⟩ : raftLog.unstable = t.node.r.raftLog.unstable ∧
      raftLog.storage = t.node.r.raftLog.storage := by
    rcases RaftLog.commitTo_eq_ok ok with ⟨_, rfl⟩ | ⟨_, _, rfl⟩ <;> exact ⟨rfl, rfl⟩
  have calm : (t.node.withRaft { t.node.r with raftLog }).rd.entries = t.node.rd.entries := by
    unfold Node.withRaft
    split
    · rename_i same
      rw [unstable] at same ⊢
      exact refines.shared same
    · rfl
  refine refines.work onward rfl refines.contiguous (by rw [unstable]; exact refines.begins.2) ?_ ?_
    (fun _ _ => rfl) refines.matching (fun _ here => here) calm
  · rw [RaftLog.lastIndex, unstable, storage]
    exact refines.last
  · intro i here
    rw [unstable] at here
    rw [RaftLog.entryAt, unstable, storage]
    exact refines.entry i here

theorem sharedEntries_self {u : Unstable} {rd : Ready} (same : rd.entries = u.entries) :
    sharedEntries u rd = rd.entries := by
  unfold sharedEntries Unstable.backing
  rw [same, List.take_left' (by simp), List.filterMap_map]
  simp

theorem Refines.ready {threshold : Nat} {t : TwoLayer} (refines : t.Refines) :
    Refines (t.step threshold .ready) := by
  simp only [step, refines.live, Bool.false_eq_true, if_false]
  split
  swap
  · exact refines
  rename_i idle
  have kept := refines.kept
  have shape := kept.steady.shape
  rw [idle] at kept
  obtain ⟨_, closed⟩ := kept.arms.resolve_right (by simp)
  have above : t.node.r.raftLog.storage.snap.lastIncludedIndex ≤ t.node.r.raftLog.applied := by
    have := refines.bounded
    rwa [secured, if_neg (by simp [idle])] at this
  obtain ⟨rd, ready⟩ : ∃ rd, t.node.ready = .ok rd := by
    have high := shape.high
    obtain ⟨ents, next⟩ : ∃ ents, t.node.r.raftLog.nextCommittedEnts = .ok ents := by
      unfold RaftLog.nextCommittedEnts
      split
      · exact ⟨_, rfl⟩
      · obtain ⟨ents, read, _⟩ := shape.slice refines.tight
          (show _ < t.node.r.raftLog.applied + 1 by omega)
          (show t.node.r.raftLog.committed + 1 ≤ _ by omega)
        exact ⟨ents, read⟩
    unfold Node.ready Raft.ready
    rw [next]
    exact ⟨_, rfl⟩
  rw [ready]
  have entries := (Node.ready_shows ready).entries
  have offer := kept.steady.offer ready
  have offered : Kept { t.node with rd, rdArray := t.node.r.raftLog.unstable.array, readyc := true } .idle :=
    ⟨⟨shape, kept.steady.after, kept.steady.steps, kept.steady.prev, kept.steady.persisted⟩,
      .inl ⟨rfl, closed⟩, fun _ => ⟨_, offer⟩, kept.reached⟩
  obtain ⟨accepted, _⟩ := offered.accept rfl
  have secure : ∀ node : Node, secured node .accepted = node.r.raftLog.applied := by
    intro node
    simp [secured]
  have same : secured t.node t.phase = t.node.r.raftLog.applied := by simp [secured, idle]
  have bound := offer.bound
  refine ⟨rfl, accepted, refines.tight, ⟨?_, rfl, rfl⟩, by simp, fun _ => sharedEntries_self entries,
    refines.contiguous, refines.begins, ?_, refines.boundary, refines.last, refines.entry, ?_,
    refines.matching, fun _ => ⟨t.node.r.raftLog.unstable.offset, t.flat, refines.matching.1, ?_⟩⟩
  · simp [Node.accept, refines.quiet.1, refines.quiet.2.1]
  · show _ ≤ secured _ .accepted
    rw [secure]
    exact above
  · intro i here bound
    rw [show secured _ .accepted = _ from secure _] at bound
    exact refines.durable i here (by rw [same]; exact bound)
  · refine ⟨?_, fun k e here => ?_, fun i here low => ?_, by simp, fun none => ?_, fun _ _ => rfl⟩
    · show IndexedFrom _ rd.entries
      rw [entries]
      exact shape.placed.indexed
    · have here : rd.entries[k]? = some e := here
      rw [entries] at here
      rw [← refines.entry _ (.inr (Nat.le_add_right _ _)), RaftLog.entryAt, if_pos (Nat.le_add_right _ _),
        Nat.add_sub_cancel_left]
      exact here
    · have there := refines.entry i (.inl here)
      rw [RaftLog.entryAt, if_neg (by omega)] at there
      exact there
    · have none : rd.entries = [] := none
      rw [entries] at none
      have high := shape.high
      rw [RaftLog.lastIndex_nil none] at high
      rw [refines.tight none]
      exact Nat.lt_succ_of_le (bound.trans high)

/-- What `Save` did to the entries of the storage. -/
theorem save_entryAt {node : Node} {o : Nat} (kept : Kept node .accepted) (indexed : IndexedFrom o node.rd.entries)
    {storage : MemStorage} {err : Option StorageError}
    (done : node.r.raftLog.storage.save node.rd.entries node.rd.hardState = .ok (storage, err)) :
    (node.rd.entries = [] ∨ err ≠ none) ∧ storage.entryAt = node.r.raftLog.storage.entryAt ∨
      (node.rd.entries ≠ [] ∧ err = none ∧ node.r.raftLog.unstable.offset ≤ o ∧
        node.r.raftLog.applied + node.rd.committedEntries.length < o + node.rd.entries.length) ∧
      (∀ i, node.r.raftLog.storage.snap.lastIncludedIndex < i → i < o →
        storage.entryAt i = node.r.raftLog.storage.entryAt i) ∧
        ∀ i, o ≤ i → storage.entryAt i = node.rd.entries[i - o]? := by
  obtain ⟨o', offer⟩ := kept.offer (.inr (kept.arms.resolve_left (by simp)).2.1)
  obtain ⟨first, stored⟩ := kept.steady.shape.stored
  have same : ∀ s' : MemStorage, s'.entries = node.r.raftLog.storage.entries →
      s'.snap = node.r.raftLog.storage.snap → s'.entryAt = node.r.raftLog.storage.entryAt := by
    intro s' entries snap
    funext i
    rw [MemStorage.entryAt, MemStorage.entryAt, MemStorage.firstIndex, MemStorage.firstIndex, entries, snap]
  unfold MemStorage.save at done
  split at done
  · rename_i nothing
    cases done
    exact .inl ⟨.inl nothing.1, rfl⟩
  by_cases none : node.rd.entries = []
  · rw [none] at done
    cases done
    exact .inl ⟨.inl none, same _ rfl rfl⟩
  have place : o' = o := by
    obtain ⟨e, rest, cons⟩ := List.exists_cons_of_ne_nil none
    have there := offer.indexed
    rw [cons] at indexed there
    exact there.head.symm.trans indexed.head
  subst place
  have fresh : MemStorage.Stored { node.r.raftLog.storage with
      hd := node.r.raftLog.storage.effectiveHard node.rd.hardState } first :=
    ⟨stored.positive, stored.low, stored.high, stored.indexed⟩
  rcases fresh.truncateAndAppend indexed offer.positive (offer.unsaved (.inr rfl) none).1 done with
    ⟨rfl, failed⟩ | ⟨_, fine, replaced⟩
  · exact .inl ⟨.inr (failed none), same _ rfl rfl⟩
  · exact .inr ⟨⟨none, fine, offer.offset, (offer.unsaved (.inr rfl) none).2.1⟩, replaced.below, replaced.above⟩

/-- What the host holds is stored, if it was saved at all. -/
theorem Loan.save {node : Node} {storage : MemStorage} {err : Option StorageError} {o : Nat} {g flat : FlatLog}
    (loan : Loan node .accepted o g flat) (kept : Node.Kept node .accepted)
    (done : node.r.raftLog.storage.save node.rd.entries node.rd.hardState = .ok (storage, err)) :
    Loan (Cluster.withStorage node storage) (if err.isSome then .stopped else .saved) o g flat := by
  have snap := MemStorage.save_snap done
  have entries := save_entryAt kept loan.indexed done
  refine ⟨loan.indexed, loan.fresh, fun i above low => ?_, fun saved some i above low => ?_, loan.empty,
    loan.settled⟩
  · change storage.snap.lastIncludedIndex < i at above
    show storage.entryAt i = _
    rw [snap] at above
    rcases entries with ⟨_, same⟩ | ⟨_, below, _⟩
    · rw [same]
      exact loan.below i above low
    · rw [below i above low]
      exact loan.below i above low
  · change storage.snap.lastIncludedIndex < i at above
    change i < o + node.rd.entries.length at low
    show storage.entryAt i = _
    rw [snap] at above
    rcases entries with ⟨empty | failed, _⟩ | ⟨_, below, upper⟩
    · exact absurd empty some
    · rw [if_pos (Option.isSome_iff_ne_none.mpr failed)] at saved
      cases saved
    · rcases Nat.lt_or_ge i o with under | beyond
      · rw [below i above under]
        exact loan.below i above under
      · have here := List.getElem?_eq_getElem (show i - o < node.rd.entries.length by omega)
        rw [upper i beyond, here, ← loan.fresh _ _ here]
        congr 1
        omega

/-- A save does not move the end of the log. -/
theorem withStorage_lastIndex {node : Node} {storage : MemStorage}
    (indexed : IndexedFrom node.r.raftLog.unstable.offset node.r.raftLog.unstable.entries)
    (before : RaftLog.Tight node.r.raftLog) (now : RaftLog.Tight (Cluster.withStorage node storage).r.raftLog) :
    (Cluster.withStorage node storage).r.raftLog.lastIndex = node.r.raftLog.lastIndex := by
  by_cases none : node.r.raftLog.unstable.entries = []
  · rw [RaftLog.lastIndex_nil none, RaftLog.lastIndex_nil (l := (Cluster.withStorage node storage).r.raftLog) none]
    have tight := now none
    have old := before none
    change node.r.raftLog.unstable.offset = storage.lastIndex + 1 at tight
    show storage.lastIndex = _
    omega
  · have last := RaftLog.lastIndex_cons (l := (Cluster.withStorage node storage).r.raftLog) indexed none
    have old := RaftLog.lastIndex_cons indexed none
    change _ = node.r.raftLog.unstable.offset + node.r.raftLog.unstable.entries.length at last
    omega

theorem Refines.save {threshold : Nat} {t : TwoLayer} (refines : t.Refines) :
    Refines (t.step threshold .save) := by
  simp only [step, refines.live, Bool.false_eq_true, if_false]
  split
  swap
  · exact refines
  rename_i accepted
  have kept := refines.kept
  have shape := kept.steady.shape
  rw [accepted] at kept
  obtain ⟨first, stored⟩ := shape.stored
  obtain ⟨⟨storage, err⟩, done⟩ := stored.save_total t.node.rd.entries t.node.rd.hardState
  obtain ⟨o, g, inside, loan⟩ := refines.out (by simp [accepted])
  obtain ⟨_, offer⟩ := kept.offer (.inr (kept.arms.resolve_left (by simp)).2.1)
  obtain ⟨kept', grows⟩ := kept.save done
  have snap := MemStorage.save_snap done
  rw [done]
  have entries := save_entryAt kept loan.indexed done
  have tight := grows.tight refines.tight
  rw [accepted] at loan
  have written := loan.save kept done
  refine ⟨refines.live, kept', tight, refines.quiet, ?_, refines.shared, refines.contiguous, ?_, ?_, ?_, ?_,
    fun i here => ?_, fun i above bound => ?_, refines.matching, fun _ => ⟨o, g, inside, written⟩⟩
  · dsimp only [withStorage]
    split <;> simp
  · show _ ≤ storage.snap.lastIncludedIndex ∧ _
    rw [snap]
    exact refines.begins
  · show storage.snap.lastIncludedIndex ≤ secured (Cluster.withStorage t.node storage) _
    have before := refines.bounded
    rw [secured, if_neg (by simp [accepted])] at before
    rw [snap]
    exact before.trans (Nat.le_add_right _ _)
  · show storage.snap.lastIncludedIndex = 0 ∨ _ = some storage.snap.lastIncludedTerm
    show storage.snap.lastIncludedIndex = 0 ∨ t.flat.term storage.snap.lastIncludedIndex = _
    rw [snap]
    exact refines.boundary
  · show (Cluster.withStorage t.node storage).r.raftLog.lastIndex = t.flat.lastIndex
    rw [← refines.last]
    exact withStorage_lastIndex shape.placed.indexed refines.tight tight
  · change storage.snap.lastIncludedIndex < i ∨ t.node.r.raftLog.unstable.offset ≤ i at here
    rw [snap] at here
    have before := refines.entry i here
    rw [RaftLog.entryAt] at before
    show (if t.node.r.raftLog.unstable.offset ≤ i then _ else storage.entryAt i) = t.flat.entryAt i
    split
    · rename_i upper
      rw [if_pos upper] at before
      exact before
    · rename_i lower
      rw [if_neg lower] at before
      rcases entries with ⟨_, same⟩ | ⟨⟨_, _, offset, _⟩, below, _⟩
      · rw [same]
        exact before
      · rw [below i (here.resolve_right lower) (by omega)]
        exact before
  · change storage.snap.lastIncludedIndex < i at above
    change i ≤ secured (Cluster.withStorage t.node storage) (if err.isSome then .stopped else .saved) at bound
    show storage.entryAt i = t.flat.entryAt i
    by_cases failed : err.isSome = true
    · rw [if_pos failed] at bound
      simp only [secured, reduceCtorEq, if_false] at bound
      rcases entries with ⟨_, same⟩ | ⟨⟨_, fine, _⟩, _⟩
      · rw [same]
        exact refines.durable i (by rw [← snap]; exact above) (by rw [secured, if_neg (by simp [accepted])]; exact bound)
      · rw [fine] at failed
        cases failed
    · rw [if_neg failed] at bound written
      simp only [secured, if_true] at bound
      change i ≤ t.node.r.raftLog.applied + t.node.rd.committedEntries.length at bound
      rw [loan.settled i bound]
      rcases entries with ⟨empty | broken, same⟩ | ⟨⟨some, _, _, reach⟩, _⟩
      · exact written.below i above (Nat.lt_of_le_of_lt bound (loan.empty empty))
      · exact absurd (Option.isSome_iff_ne_none.mpr broken) failed
      · exact written.saved rfl some i above (Nat.lt_of_le_of_lt bound reach)

/-- The log after `Advance`, entry by entry. -/
theorem advanceLog_cases (l : RaftLog) (rd : Ready) :
    (Raft.advanceLog l rd).unstable = l.unstable ∨
    ∃ last e, rd.entries.getLast? = some last ∧ l.unstable.offset ≤ last.index ∧
      l.entryAt last.index = some e ∧ e.term = last.term ∧
      (Raft.advanceLog l rd).unstable.offset = last.index + 1 ∧
      (Raft.advanceLog l rd).unstable.entries =
        l.unstable.entries.drop (last.index - l.unstable.offset + 1) ∧
      ∀ i, (Raft.advanceLog l rd).entryAt i =
        if i ≤ last.index then l.storage.entryAt i else l.entryAt i := by
  have through : (Raft.advanceLog l rd).unstable = (promoted l rd).unstable ∧
      (Raft.advanceLog l rd).storage = (promoted l rd).storage := by
    rw [advanceLog_eq]
    split <;> exact ⟨rfl, rfl⟩
  have same : (Raft.advanceLog l rd).entryAt = (promoted l rd).entryAt := by
    funext i
    rw [RaftLog.entryAt, RaftLog.entryAt, through.1, through.2]
  rw [same, through.1]
  unfold promoted
  split
  · exact .inl rfl
  · rename_i last found
    rcases l.stableTo_cases last.index last.term with kept | ⟨e, low, here, term, offset, entries, entry⟩
    · exact .inl (by rw [kept])
    · exact .inr ⟨last, e, found, low, here, term, offset, entries, entry⟩

/-- A promoted entry is the one that was saved, and so is everything below it. -/
theorem Refines.promoted {t : TwoLayer} (refines : t.Refines) (saved : t.phase = .saved) {last e : Entry}
    (found : t.node.rd.entries.getLast? = some last) (low : t.node.r.raftLog.unstable.offset ≤ last.index)
    (here : t.node.r.raftLog.entryAt last.index = some e) (term : e.term = last.term) :
    t.node.r.raftLog.storage.lastIndex = last.index ∧
      ∀ i, t.node.r.raftLog.storage.snap.lastIncludedIndex < i → i ≤ last.index →
        t.node.r.raftLog.storage.entryAt i = t.flat.entryAt i := by
  have kept := refines.kept
  rw [saved] at kept
  obtain ⟨_, out, _⟩ := kept.send.arms.resolve_left (by simp)
  obtain ⟨o', offer⟩ := kept.send.offer (.inr out)
  obtain ⟨o, g, inside, loan⟩ := refines.out (by simp [saved])
  have some : t.node.rd.entries ≠ [] := by
    intro none
    rw [none] at found
    cases found
  have place := loan.indexed.last found
  have stored := offer.saved (.inr rfl) some
  have final := offer.indexed.last found
  refine ⟨by omega, fun i above bound => ?_⟩
  have held : g.entryAt last.index = Option.some last := by
    have length : 0 < t.node.rd.entries.length := List.length_pos_iff.mpr some
    rw [List.getLast?_eq_getElem?] at found
    rw [← loan.fresh _ _ found]
    congr 1
    omega
  rw [loan.saved saved some i above (by omega)]
  exact ((refines.matching.2 g inside).agree ((refines.entry _ (.inr low)).symm.trans here) held term bound).symm

/-- `Advance` moves the border between the two layers and not the end of the log. -/
theorem Refines.advance_lastIndex {t : TwoLayer} (refines : t.Refines) (saved : t.phase = .saved)
    (indexed : IndexedFrom (Raft.advanceLog t.node.r.raftLog t.node.rd).unstable.offset
      (Raft.advanceLog t.node.r.raftLog t.node.rd).unstable.entries) :
    (Raft.advanceLog t.node.r.raftLog t.node.rd).lastIndex = t.node.r.raftLog.lastIndex := by
  have storage := Raft.advanceLog_storage t.node.r.raftLog t.node.rd
  rcases advanceLog_cases t.node.r.raftLog t.node.rd with
    same | ⟨last, e, found, low, here, term, offset, entries, _⟩
  · rw [RaftLog.lastIndex, RaftLog.lastIndex, same, storage]
  · have here' := here
    rw [RaftLog.entryAt, if_pos low] at here'
    have length := (List.getElem?_eq_some_iff.mp here').1
    have some : t.node.r.raftLog.unstable.entries ≠ [] := by
      intro none
      rw [none] at length
      simp at length
    have before := RaftLog.lastIndex_cons refines.kept.steady.shape.placed.indexed some
    by_cases none : (Raft.advanceLog t.node.r.raftLog t.node.rd).unstable.entries = []
    · have short := congrArg List.length (entries.symm.trans none)
      rw [List.length_drop, List.length_nil] at short
      rw [RaftLog.lastIndex_nil none, storage, (refines.promoted saved found low here term).1]
      omega
    · have now := RaftLog.lastIndex_cons indexed none
      rw [offset, entries, List.length_drop] at now
      omega

theorem Refines.advance {threshold : Nat} {t : TwoLayer} (refines : t.Refines) :
    Refines (t.step threshold .advance) := by
  simp only [step, refines.live, Bool.false_eq_true, if_false]
  split
  swap
  · exact refines
  rename_i saved
  have kept := refines.kept
  rw [saved] at kept
  have shape := kept.steady.shape
  have sent := kept.send
  obtain ⟨_, out, _⟩ := sent.arms.resolve_left (by simp)
  obtain ⟨node, done⟩ : ∃ node, t.node.advance = .ok node := by
    unfold Node.advance
    rw [refines.quiet.1]
    exact ⟨_, rfl⟩
  have selected : t.node.select .advance = .ok (node, none) := by
    simp only [select, out, if_true, done]
    rfl
  obtain ⟨works, _⟩ := (select_cases selected).of_advance out
  obtain ⟨kept', grows⟩ := sent.advance works done
  rw [done]
  unfold Node.advance at done
  rw [refines.quiet.1] at done
  cases done
  have storage := Raft.advanceLog_storage t.node.r.raftLog t.node.rd
  have secure : (Raft.advanceLog t.node.r.raftLog t.node.rd).applied = secured t.node t.phase := by
    have count := grows.handed
    simp only [Node.handed, out, if_true, Bool.false_eq_true, if_false, Nat.add_zero] at count
    rw [secured, if_pos saved]
    exact count
  have tight := grows.tight refines.tight
  change RaftLog.Tight (Raft.advanceLog t.node.r.raftLog t.node.rd) at tight
  have moved := advanceLog_cases t.node.r.raftLog t.node.rd
  have begins := refines.begins
  refine ⟨rfl, kept', tight, ⟨rfl, refines.quiet.2.1, refines.quiet.2.2⟩, by simp, fun _ => rfl,
    refines.contiguous, ?_, ?_, ?_, ?_, fun i here => ?_, fun i above bound => ?_, refines.matching,
    fun wrong => absurd rfl wrong⟩
  · show _ ≤ (Raft.advanceLog t.node.r.raftLog t.node.rd).storage.snap.lastIncludedIndex ∧
      _ < (Raft.advanceLog t.node.r.raftLog t.node.rd).unstable.offset
    rw [storage]
    refine ⟨begins.1, ?_⟩
    rcases moved with same | ⟨last, _, _, low, _, _, offset, _⟩
    · rw [same]
      exact begins.2
    · rw [offset]
      exact Nat.lt_succ_of_lt (Nat.lt_of_lt_of_le begins.2 low)
  · show (Raft.advanceLog t.node.r.raftLog t.node.rd).storage.snap.lastIncludedIndex ≤
      (Raft.advanceLog t.node.r.raftLog t.node.rd).applied + 0
    rw [storage, secure]
    exact refines.bounded
  · show (Raft.advanceLog t.node.r.raftLog t.node.rd).storage.snap.lastIncludedIndex = 0 ∨
      t.flat.term (Raft.advanceLog t.node.r.raftLog t.node.rd).storage.snap.lastIncludedIndex =
        some (Raft.advanceLog t.node.r.raftLog t.node.rd).storage.snap.lastIncludedTerm
    rw [storage]
    exact refines.boundary
  · show (Raft.advanceLog t.node.r.raftLog t.node.rd).lastIndex = t.flat.lastIndex
    rw [← refines.last]
    exact refines.advance_lastIndex saved kept'.steady.shape.placed.indexed
  · change (Raft.advanceLog t.node.r.raftLog t.node.rd).storage.snap.lastIncludedIndex < i ∨
      (Raft.advanceLog t.node.r.raftLog t.node.rd).unstable.offset ≤ i at here
    show (Raft.advanceLog t.node.r.raftLog t.node.rd).entryAt i = t.flat.entryAt i
    rw [storage] at here
    rcases moved with same | ⟨last, e, found, low, there, term, offset, _, entry⟩
    · rw [same] at here
      rw [RaftLog.entryAt, same, storage]
      exact refines.entry i here
    · rw [offset] at here
      rw [entry]
      split
      · rename_i bound
        exact (refines.promoted saved found low there term).2 i (by omega) bound
      · exact refines.entry i (.inr (by omega))
  · change (Raft.advanceLog t.node.r.raftLog t.node.rd).storage.snap.lastIncludedIndex < i at above
    change i ≤ (Raft.advanceLog t.node.r.raftLog t.node.rd).applied + 0 at bound
    show (Raft.advanceLog t.node.r.raftLog t.node.rd).storage.entryAt i = t.flat.entryAt i
    rw [storage] at above ⊢
    rw [secure] at bound
    exact refines.durable i above bound

theorem Refines.compact {threshold : Nat} {t : TwoLayer} {index : Nat} (refines : t.Refines)
    (orderly : Orderly threshold t (.compact index)) : Refines (t.step threshold (.compact index)) := by
  simp only [step, refines.live, Bool.false_eq_true, if_false]
  have kept := refines.kept
  have shape := kept.steady.shape
  obtain ⟨first, stored⟩ := shape.stored
  obtain ⟨⟨storage, err⟩, done⟩ := stored.maybeCompact_total threshold index
  rw [done]
  obtain ⟨kept', grows⟩ := kept.compact (Nat.le_trans orderly (secured_handed kept)) done
  rcases stored.maybeCompact done with rfl | compacted
  · exact refines
  have moved := compacted.moved
  have tight := grows.tight refines.tight
  have begins := refines.begins
  obtain ⟨e, here, term⟩ := compacted.term
  refine ⟨refines.live, kept', tight, refines.quiet, refines.phases, refines.shared, refines.contiguous, ?_, ?_,
    .inr ?_, ?_, fun i here => ?_, fun i above bound => ?_, refines.matching, fun out => ?_⟩
  · show t.flat.base.lastIncludedIndex ≤ storage.snap.lastIncludedIndex ∧ _
    rw [compacted.snap]
    exact ⟨by omega, begins.2⟩
  · show storage.snap.lastIncludedIndex ≤ _
    rw [compacted.snap]
    exact orderly
  · show t.flat.term storage.snap.lastIncludedIndex = some storage.snap.lastIncludedTerm
    rw [compacted.snap, term, FlatLog.term, if_neg (by omega), if_neg (by omega),
      ← refines.durable index moved orderly, here]
    rfl
  · show (Cluster.withStorage t.node storage).r.raftLog.lastIndex = t.flat.lastIndex
    rw [← refines.last, RaftLog.lastIndex, RaftLog.lastIndex]
    show _ = (t.node.r.raftLog.unstable.maybeLastIndex).getD t.node.r.raftLog.storage.lastIndex
    rw [← compacted.last]
    rfl
  · change storage.snap.lastIncludedIndex < i ∨ t.node.r.raftLog.unstable.offset ≤ i at here
    rw [compacted.snap] at here
    have before := refines.entry i (by omega)
    rw [RaftLog.entryAt] at before
    show (if t.node.r.raftLog.unstable.offset ≤ i then _ else storage.entryAt i) = t.flat.entryAt i
    split
    · rename_i upper
      rw [if_pos upper] at before
      exact before
    · rename_i lower
      rw [if_neg lower] at before
      rw [compacted.above i (here.resolve_right lower)]
      exact before
  · change storage.snap.lastIncludedIndex < i at above
    rw [compacted.snap] at above
    show storage.entryAt i = t.flat.entryAt i
    rw [compacted.above i above]
    exact refines.durable i (by omega) bound
  · obtain ⟨o, g, inside, loan⟩ := refines.out out
    refine ⟨o, g, inside, loan.indexed, loan.fresh, fun i above low => ?_, fun saved some i above low => ?_,
      loan.empty, loan.settled⟩
    · change storage.snap.lastIncludedIndex < i at above
      rw [compacted.snap] at above
      show storage.entryAt i = _
      rw [compacted.above i above]
      exact loan.below i (by omega) low
    · change storage.snap.lastIncludedIndex < i at above
      rw [compacted.snap] at above
      show storage.entryAt i = _
      rw [compacted.above i above]
      exact loan.saved saved some i (by omega) low

theorem Refines.step {threshold : Nat} {t : TwoLayer} {e : LogEvent} (refines : t.Refines)
    (orderly : Orderly threshold t e) : Refines (t.step threshold e) := by
  cases e with
  | append ents room => exact refines.append orderly
  | commitTo index => exact refines.commitTo orderly
  | ready => exact refines.ready
  | save => exact refines.save
  | advance => exact refines.advance
  | compact index => exact refines.compact orderly

theorem start_refines {cfg : Config} {r : Raft} (sound : cfg.storage.Sound)
    (made : Raft.newRaft cfg = .ok r) : Refines (start r) := by
  obtain ⟨_, tight, applied⟩ := Raft.newRaft_shape sound made
  obtain ⟨log, _, _⟩ := Raft.newRaft_log made
  have stored := sound.stored
  have storage : r.raftLog.storage = cfg.storage := by rw [log]
  have offset : r.raftLog.unstable.offset = cfg.storage.lastIndex + 1 := by rw [log]
  have empty : r.raftLog.unstable.entries = [] := by rw [log]
  have last := stored.lastIndex
  have low := stored.boundary_le
  have entry : ∀ i, cfg.storage.snap.lastIncludedIndex < i →
      cfg.storage.entryAt i = (FlatLog.mk cfg.storage.snap cfg.storage.entries).entryAt i := by
    intro i above
    rw [stored.entryAt above, FlatLog.entryAt, if_neg (Nat.not_le.mpr above)]
  refine ⟨rfl, Member.start_node_kept sound made, tight, ⟨rfl, (Raft.newRaft_fresh made).msgsAfterAppend, rfl⟩,
    by simp [start], fun _ => rfl, ?_, ?_, ?_, ?_, ?_, ?_, ?_, ⟨by simp [start], ?_⟩, fun out => absurd rfl out⟩
  · show IndexedFrom (r.raftLog.storage.snap.lastIncludedIndex + 1) r.raftLog.storage.entries
    rw [storage]
    exact stored.indexed
  · show r.raftLog.storage.snap.lastIncludedIndex ≤ r.raftLog.storage.snap.lastIncludedIndex ∧
      r.raftLog.storage.snap.lastIncludedIndex < r.raftLog.unstable.offset
    rw [storage, offset]
    omega
  · show r.raftLog.storage.snap.lastIncludedIndex ≤ r.raftLog.applied + 0
    rw [storage]
    exact applied
  · show r.raftLog.storage.snap.lastIncludedIndex = 0 ∨
      (FlatLog.mk r.raftLog.storage.snap r.raftLog.storage.entries).term
        r.raftLog.storage.snap.lastIncludedIndex = some r.raftLog.storage.snap.lastIncludedTerm
    by_cases zero : r.raftLog.storage.snap.lastIncludedIndex = 0
    · exact .inl zero
    · right
      rw [FlatLog.term, if_neg zero, if_pos rfl]
  · show r.raftLog.lastIndex = (FlatLog.mk r.raftLog.storage.snap r.raftLog.storage.entries).lastIndex
    rw [RaftLog.lastIndex_nil empty, storage, FlatLog.lastIndex]
    dsimp only
    omega
  · show ∀ i, r.raftLog.storage.snap.lastIncludedIndex < i ∨ r.raftLog.unstable.offset ≤ i →
      r.raftLog.entryAt i = (FlatLog.mk r.raftLog.storage.snap r.raftLog.storage.entries).entryAt i
    rw [storage, offset]
    intro i here
    rw [RaftLog.entryAt, offset, empty, storage]
    split
    · rename_i upper
      rw [FlatLog.entryAt, if_neg (by dsimp only; omega)]
      dsimp only
      rw [List.getElem?_nil, List.getElem?_eq_none (by omega)]
    · exact entry i (by omega)
  · show ∀ i, r.raftLog.storage.snap.lastIncludedIndex < i → _ → r.raftLog.storage.entryAt i =
      (FlatLog.mk r.raftLog.storage.snap r.raftLog.storage.entries).entryAt i
    rw [storage]
    exact fun i above _ => entry i above
  · intro g inside
    rw [List.mem_singleton.mp inside]
    exact .refl _

/-- The two layers answer as the flat log does, and nothing has panicked. -/
structure Answers (t : TwoLayer) : Prop where
  live : t.panicked = false
  contiguous : IndexedFrom (t.flat.base.lastIncludedIndex + 1) t.flat.entries
  lastIndex : t.node.r.raftLog.lastIndex = t.flat.lastIndex
  lastEntryID : t.node.r.raftLog.lastEntryID = .ok t.flat.lastEntryID
  term : ∀ i, t.node.r.raftLog.storage.snap.lastIncludedIndex ≤ i → i ≤ t.node.r.raftLog.lastIndex →
    t.node.r.raftLog.getTerm i = .ok (t.flat.term i)
  slice : ∀ lo hi, t.node.r.raftLog.storage.snap.lastIncludedIndex < lo →
    hi ≤ t.node.r.raftLog.lastIndex + 1 → t.node.r.raftLog.slice lo hi = .ok (t.flat.slice lo hi)

theorem Refines.term {t : TwoLayer} (refines : t.Refines) {i : Nat}
    (above : t.node.r.raftLog.storage.snap.lastIncludedIndex ≤ i) (bound : i ≤ t.node.r.raftLog.lastIndex) :
    t.node.r.raftLog.getTerm i = .ok (t.flat.term i) := by
  have shape := refines.kept.steady.shape
  obtain ⟨first, stored⟩ := shape.stored
  have begins := refines.begins
  have fits := shape.fits
  unfold RaftLog.getTerm FlatLog.term
  by_cases zero : i = 0
  · rw [if_pos zero, if_pos zero]
  rw [if_neg zero, if_neg zero]
  unfold Unstable.maybeTerm
  by_cases lower : i < t.node.r.raftLog.unstable.offset
  · rw [if_pos lower]
    by_cases edge : i = t.node.r.raftLog.storage.snap.lastIncludedIndex
    · have known := refines.boundary.resolve_left (by omega)
      rw [← edge, FlatLog.term, if_neg zero] at known
      rw [known]
      show t.node.r.raftLog.storage.getTerm i = _
      have reach := stored.boundary_le
      unfold MemStorage.getTerm
      rw [if_neg (by omega), if_neg (by omega), if_pos edge]
    · have entry := refines.entry i (by omega)
      rw [RaftLog.entryAt, if_neg (by omega)] at entry
      rw [if_neg (by omega), ← entry]
      exact stored.getTerm (by omega) (by omega)
  · rw [if_neg lower, if_neg (by omega)]
    have entry := refines.entry i (.inr (by omega))
    rw [← entry, RaftLog.entryAt, if_pos (by omega)]
    obtain ⟨e, here⟩ := FlatLog.entryAt_some (f := t.flat) (show _ < i by omega) (by rw [← refines.last]; exact bound)
    rw [← entry, RaftLog.entryAt, if_pos (by omega)] at here
    rw [here]
    rfl

theorem Refines.slice {t : TwoLayer} (refines : t.Refines) {lo hi : Nat}
    (above : t.node.r.raftLog.storage.snap.lastIncludedIndex < lo)
    (bound : hi ≤ t.node.r.raftLog.lastIndex + 1) :
    t.node.r.raftLog.slice lo hi = .ok (t.flat.slice lo hi) := by
  obtain ⟨ents, read, range⟩ := refines.kept.steady.shape.slice refines.tight above bound
  have begins := refines.begins
  have last := refines.last
  rw [read]
  congr 1
  apply List.ext_getElem?
  intro k
  rw [FlatLog.slice, List.getElem?_take, List.getElem?_drop]
  have size := range.length
  split
  · rename_i inside
    rw [range.entry k inside, refines.entry _ (.inl (by omega)), FlatLog.entryAt, if_neg (by omega)]
    congr 1
    omega
  · exact List.getElem?_eq_none (by omega)

theorem Refines.answers {t : TwoLayer} (refines : t.Refines) : Answers t := by
  have shape := refines.kept.steady.shape
  have low := shape.low.trans shape.high
  refine ⟨refines.live, refines.contiguous, refines.last, ?_, fun _ => refines.term, fun _ _ => refines.slice⟩
  unfold RaftLog.lastEntryID FlatLog.lastEntryID
  rw [refines.term low (Nat.le_refl _), refines.last]
  by_cases zero : t.flat.lastIndex = 0
  · rw [if_pos zero, zero]
    rfl
  · rw [if_neg zero]
    have known : ∃ term, t.flat.term t.flat.lastIndex = some term := by
      unfold FlatLog.term
      rw [if_neg zero]
      split
      · exact ⟨_, rfl⟩
      · rename_i other
        obtain ⟨e, here⟩ := FlatLog.entryAt_some (f := t.flat) (i := t.flat.lastIndex)
          (by unfold FlatLog.lastIndex at other ⊢; omega) (Nat.le_refl _)
        rw [here]
        exact ⟨_, rfl⟩
    obtain ⟨term, known⟩ := known
    rw [known]
    rfl

/-- At every moment of an orderly run. -/
theorem flat_log_answers (threshold : Nat) (cfg : Config) (sound : cfg.storage.Sound) (r : Raft)
    (made : Raft.newRaft cfg = .ok r) (events : List LogEvent)
    (orderly : Runs.Along (step threshold) (Orderly threshold) (start r) events) (n : Nat) :
    Answers (Runs.exec (step threshold) (start r) (events.take n)) := by
  have refines := Runs.invariant_take (step threshold) Refines (fun _ _ refines orderly => refines.step orderly)
    (start_refines sound made) orderly n
  exact refines.answers

/-- Two entries are saved, the second is replaced before `Advance`, and the log is compacted
below it. -/
def replaceAndCompact : List LogEvent :=
  [.append [⟨1, 1, []⟩, ⟨2, 1, []⟩] 0, .commitTo 1, .ready, .save, .append [⟨2, 2, []⟩, ⟨3, 2, []⟩] 0,
    .advance, .ready, .save, .compact 1, .advance]

theorem replaceAndCompact_answers : ∃ r, Raft.newRaft Member.followerConfig = .ok r ∧
    Answers (Runs.exec (step 1) (start r) (replaceAndCompact.take 10)) :=
  ⟨_, rfl, flat_log_answers 1 Member.followerConfig sound_empty _ rfl replaceAndCompact
    (by decide +kernel) 10⟩

/-- The second entry is replaced in the array that the saved `Ready` shares with the log:
`Advance` then promotes an entry that was never saved, and the storage answers with the old one. -/
theorem promoted_unsaved : ∃ r, Raft.newRaft Member.followerConfig = .ok r ∧
    (Runs.exec (step 1) (start r) [.append [⟨1, 1, []⟩, ⟨2, 1, []⟩] 4, .ready, .save,
      .append [⟨2, 2, []⟩] 4, .advance]).node.r.raftLog.getTerm 2 = .ok (some 1) ∧
    (Runs.exec (step 1) (start r) [.append [⟨1, 1, []⟩, ⟨2, 1, []⟩] 4, .ready, .save,
      .append [⟨2, 2, []⟩] 4, .advance]).flat.term 2 = some 2 :=
  ⟨_, rfl, rfl, rfl⟩

end TwoLayer

end Kvgo

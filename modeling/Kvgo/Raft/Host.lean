import Kvgo.Raft.Replication

/-! A node and its host as part of the replicated log. Between taking a `Ready` and
calling `Advance` the host holds a slice of the unstable entries; it saves that slice,
and `Advance` then takes the saved entries off the unstable part. -/

namespace Kvgo

def SafeEntry (voters : List Nat) (s : History) (e : Entry) : Prop :=
  ∃ t L, TermLog.Safe voters s t L ∧ 0 < e.index ∧ L[e.index - 1]? = some e

/-- The entries of a `Ready` that the host has taken: they start at index `o`, and as long
as they share the array of the unstable entries they are a first part of these. -/
structure Lent (entries : List Entry) (array o : Nat) (l : RaftLog) : Prop where
  indexed : IndexedFrom o entries
  positive : 0 < o
  old : array ≤ l.unstable.array
  below : l.unstable.offset ≤ o
  live : l.unstable.entries ≠ []
  shared : array = l.unstable.array → l.unstable.offset = o ∧ entries <+: l.unstable.entries

structure Unsaved (s : History) (entries : List Entry) (o : Nat) (l : RaftLog) : Prop where
  stored : o - 1 ≤ l.storage.entries.length
  good : TermLog.LogOK Entry.term s (l.storage.entries.take (o - 1) ++ entries)

structure Saved (s : History) (entries : List Entry) (l : RaftLog) : Prop where
  tail : entries <:+ l.storage.entries
  good : TermLog.LogOK Entry.term s l.storage.entries

structure HostSim (cfg : ClusterConfig) (s : History) (n : Nat) (node : Node) (phase : Phase) : Prop where
  member : n ∈ cfg.voters
  core : Raft.Sim cfg.voters s n node.r
  messages : ∀ msg ∈ node.rd.messages, MsgOK cfg.voters s msg
  steps : ∀ msg ∈ node.stepsOnAdvance, Raft.Sound cfg.voters s n msg
  committed : ∀ e ∈ node.rd.committedEntries, SafeEntry cfg.voters s e
  flags : phase = .idle ↔ node.advancec = false
  running : phase ≠ .stopped
  waiting : phase = .idle → node.r.raftLog.unstable.entries = [] → node.rd.entries = []
  lent : phase ≠ .idle → node.rd.entries ≠ [] → ∃ o,
    Lent node.rd.entries node.rdArray o node.r.raftLog ∧
    (phase = .accepted → Unsaved s node.rd.entries o node.r.raftLog) ∧
    (phase = .saved ∨ phase = .sent → Saved s node.rd.entries node.r.raftLog)

def Node.UpToDate (node : Node) (phase : Phase) : Prop :=
  phase = .idle → node.readyc = true → node.rd.entries = node.r.raftLog.unstable.entries ∧
    (node.rd.entries ≠ [] → node.rdArray = node.r.raftLog.unstable.array)

section Keep

variable {cfg : ClusterConfig} {s s' : History} {n : Nat} {node node' : Node} {phase : Phase}

theorem SafeEntry.ext {voters : List Nat} {e : Entry} (inv : TermLog.Inv Entry.term voters s)
    (ext : TermLog.Ext s s') (safe : SafeEntry voters s e) : SafeEntry voters s' e :=
  let ⟨t, L, found, rest⟩ := safe
  ⟨t, L, inv.safe_ext ext found, rest⟩

theorem SafeEntry.unique {voters : List Nat} {d e : Entry} (inv : TermLog.Inv Entry.term voters s)
    (first : SafeEntry voters s d) (second : SafeEntry voters s e) (same : d.index = e.index) : d = e := by
  obtain ⟨_, L, safeL, _, inL⟩ := first
  obtain ⟨_, M, safeM, _, inM⟩ := second
  rw [same] at inL
  have get : ∀ {L M : List Entry} {i : Nat} {a : Entry}, L <+: M → L[i]? = some a → M[i]? = some a := by
    rintro L _ i a ⟨rest, rfl⟩ here
    rw [List.getElem?_append_left (List.getElem?_eq_some_iff.mp here).1, here]
  rcases inv.safe_comparable safeL safeM with sub | sub
  · exact Option.some.inj ((get sub inL).symm.trans inM)
  · exact Option.some.inj (inL.symm.trans (get sub inM))

theorem Unsaved.ext {entries : List Entry} {o : Nat} {l : RaftLog} (ext : TermLog.Ext s s')
    (held : Unsaved s entries o l) : Unsaved s' entries o l :=
  ⟨held.stored, held.good.ext ext⟩

theorem Saved.ext {entries : List Entry} {l : RaftLog} (ext : TermLog.Ext s s')
    (held : Saved s entries l) : Saved s' entries l :=
  ⟨held.tail, held.good.ext ext⟩

theorem HostSim.frame (sim : HostSim cfg s n node phase) (inv : TermLog.Inv Entry.term cfg.voters s)
    (ext : TermLog.Ext s s') {other : Nat} (frame : TermLog.Frame other s s') (differ : n ≠ other) :
    HostSim cfg s' n node phase :=
  { sim with
    core := sim.core.frame inv ext frame differ
    messages := fun msg inside => (sim.messages msg inside).ext inv ext
    steps := fun msg inside => (sim.steps msg inside).ext inv ext
    committed := fun e inside => (sim.committed e inside).ext inv ext
    lent := fun busy some =>
      let ⟨o, lent, before, after⟩ := sim.lent busy some
      ⟨o, lent, fun kind => (before kind).ext ext, fun kind => (after kind).ext ext⟩ }

theorem Lent.memory {entries : List Entry} {array o : Nat} {l l' : RaftLog} (held : Lent entries array o l)
    (memory : Raft.Memory (some array) l l') : Lent entries array o l' where
  indexed := held.indexed
  positive := held.positive
  old := held.old.trans memory.array
  below := memory.offset.trans held.below
  live none := held.live (memory.nonempty none)
  shared same := by
    have before : array = l.unstable.array := le_antisymm held.old (same ▸ memory.array)
    obtain ⟨offset, sub⟩ := held.shared before
    obtain ⟨offset', sub'⟩ := memory.shared (by rw [before]) (same ▸ before)
    exact ⟨offset'.trans offset, sub.trans sub'⟩

theorem sharedEntries_of_isPrefix {u : Unstable} {rd : Ready} (sub : rd.entries <+: u.entries) :
    Node.sharedEntries u rd = rd.entries := by
  obtain ⟨rest, whole⟩ := sub
  have cut : u.entries.take rd.entries.length = rd.entries := by rw [← whole]; simp
  unfold Node.sharedEntries Unstable.backing
  rw [List.take_append_of_le_length (by rw [List.length_map, ← whole]; simp), ← List.map_take, cut,
    List.filterMap_map]
  simp

theorem withRaft_entries (node : Node) (r : Raft)
    (kept : node.rdArray = r.raftLog.unstable.array → node.rd.entries <+: r.raftLog.unstable.entries) :
    (node.withRaft r).rd.entries = node.rd.entries := by
  unfold Node.withRaft
  split
  · rename_i same
    exact sharedEntries_of_isPrefix (kept same)
  · rfl

theorem withRaft_committed (node : Node) (r : Raft) :
    (node.withRaft r).rd.committedEntries = node.rd.committedEntries ∧
      (node.withRaft r).rdArray = node.rdArray := by
  unfold Node.withRaft
  split <;> exact ⟨rfl, rfl⟩

def Node.lentArray (node : Node) : Option Nat := if node.advancec then some node.rdArray else none

theorem HostSim.lentArray_busy (sim : HostSim cfg s n node phase) (busy : phase ≠ .idle) :
    node.lentArray = some node.rdArray := by
  have : node.advancec = true := by simpa [sim.flags] using busy
  simp [Node.lentArray, this]

/-- The entries of a `Ready` that the host holds survive the work on the node. -/
theorem HostSim.lent_entries {r' : Raft} (sim : HostSim cfg s n node phase) (busy : phase ≠ .idle)
    (memory : Raft.Memory node.lentArray node.r.raftLog r'.raftLog) :
    (node.withRaft r').rd.entries = node.rd.entries := by
  by_cases none : node.rd.entries = []
  · exact withRaft_entries node r' (fun _ => by simp [none])
  · rw [sim.lentArray_busy busy] at memory
    obtain ⟨o, lent, _⟩ := sim.lent busy none
    exact withRaft_entries node r' (fun here => ((lent.memory memory).shared here).2)

/-- Work on the state machine. -/
theorem HostSim.withRaft (sim : HostSim cfg s n node phase) (inv : TermLog.Inv Entry.term cfg.voters s)
    {r' : Raft} (moves : TermLog.Moves Entry.term cfg.voters n s s') (core : Raft.Sim cfg.voters s' n r')
    (memory : Raft.Memory node.lentArray node.r.raftLog r'.raftLog) :
    HostSim cfg s' n (node.withRaft r') phase := by
  obtain ⟨_, ext, _⟩ := inv.moves moves
  obtain ⟨messages, _⟩ := withRaft_rd node r'
  obtain ⟨same, steps, _, _, advancec⟩ := withRaft_rest node r'
  obtain ⟨committed, array⟩ := withRaft_committed node r'
  refine ⟨sim.member, by rw [same]; exact core, ?_, ?_, ?_, by rw [advancec]; exact sim.flags, sim.running, ?_, ?_⟩
  · rw [messages]; exact fun msg inside => (sim.messages msg inside).ext inv ext
  · rw [steps]; exact fun msg inside => (sim.steps msg inside).ext inv ext
  · rw [committed]; exact fun e inside => (sim.committed e inside).ext inv ext
  · intro idle none
    rw [same] at none
    have empty := sim.waiting idle (memory.nonempty none)
    rw [withRaft_entries node r' (fun _ => by simp [empty]), empty]
  · intro busy some
    rw [sim.lent_entries busy memory] at some ⊢
    rw [sim.lentArray_busy busy] at memory
    obtain ⟨o, lent, before, after⟩ := sim.lent busy some
    have lent' := lent.memory memory
    rw [array, same]
    refine ⟨o, lent', fun kind => ?_, fun kind => ?_⟩
    · obtain ⟨stored, good⟩ := before kind
      exact ⟨memory.storage ▸ stored, memory.storage ▸ good.ext ext⟩
    · obtain ⟨tail, good⟩ := after kind
      exact ⟨memory.storage ▸ tail, memory.storage ▸ good.ext ext⟩

/-! The head of the loop. -/

theorem safe_committed {r : Raft} (core : Raft.Sim cfg.voters s n r) {e : Entry}
    (inside : e ∈ (r.raftLog.view.take r.raftLog.committed).drop r.raftLog.applied) :
    SafeEntry cfg.voters s e := by
  obtain ⟨i, here⟩ := List.mem_iff_getElem?.mp (List.mem_of_mem_drop inside)
  have index := (core.layered.indexed.take r.raftLog.committed) i e here
  exact ⟨_, _, core.safe, by omega, by rw [show e.index - 1 = i by omega]; exact here⟩

theorem HostSim.loopTop (sim : HostSim cfg s n node phase) (top : node.loopTop = .ok node') :
    HostSim cfg s n node' phase ∧ node'.UpToDate phase := by
  rcases Cluster.loopTop_cases top with ⟨rfl, still⟩ | ⟨waiting, _, rd, ready, rfl⟩
  · refine ⟨sim, fun idle _ => ?_⟩
    have quiet : node'.r.raftLog.unstable.entries = [] := by
      have none := still.resolve_left (by simp [sim.flags.mp idle])
      simp only [Node.hasReady, Raft.hasReady, Bool.or_eq_false_iff, RaftLog.hasNextUnstableEnts] at none
      simpa using none.2.1.2
    have empty := sim.waiting idle quiet
    exact ⟨by rw [empty, quiet], fun some => absurd empty some⟩
  · have idle : phase = .idle := sim.flags.mpr waiting
    have shows := Node.ready_shows ready
    have committed : rd.committedEntries =
        (node.r.raftLog.view.take node.r.raftLog.committed).drop node.r.raftLog.applied := by
      have next := shows.committed
      rw [sim.core.layered.nextCommittedEnts] at next
      exact (Except.ok.inj next).symm
    refine ⟨?_, fun _ _ => ⟨shows.entries, fun _ => rfl⟩⟩
    exact { sim with
      messages := fun msg inside => sim.core.held msg (Raft.held_of_shows shows msg inside)
      committed := fun e inside => safe_committed sim.core (committed ▸ inside)
      waiting := fun _ none => shows.entries.trans none
      lent := fun busy => absurd idle busy }

/-! Taking, saving and releasing a `Ready`. -/

theorem HostSim.accept (sim : HostSim cfg s n node .idle) (fresh : node.UpToDate .idle)
    (inv : TermLog.Inv Entry.term cfg.voters s) (enabled : node.readyc = true) :
    HostSim cfg s n node.accept .accepted := by
  obtain ⟨entries, array⟩ := fresh rfl enabled
  refine ⟨sim.member, ?_, sim.messages, ?_, sim.committed, by simp [Node.accept], by simp, by simp, ?_⟩
  · refine sim.core.still ⟨rfl, rfl, rfl, rfl, rfl, .inr (.inr ⟨rfl, rfl, fun _ => rfl⟩)⟩ ?_
    intro msg inside
    left
    simp only [Node.accept, Raft.held, List.append_nil] at inside
    simp [Raft.held, inside]
  · intro msg inside
    simp only [Node.accept, List.mem_append, List.mem_filter, decide_eq_true_eq] at inside
    rcases inside with old | ⟨queued, self⟩
    · exact sim.steps msg old
    · exact ⟨sim.core.held msg (by simp [Raft.held, queued]), fun _ => self.trans sim.core.id⟩
  · intro _ some
    have layered := sim.core.layered
    show ∃ o, Lent node.rd.entries node.rdArray o node.r.raftLog ∧ _ ∧ _
    rw [array some, entries]
    refine ⟨node.r.raftLog.unstable.offset, ⟨layered.unstable, layered.positive, le_rfl, le_rfl, ?_,
      fun _ => ⟨rfl, List.prefix_refl _⟩⟩, fun _ => ⟨layered.stored, ?_⟩, by simp⟩
    · rw [← entries]; exact some
    · have good := (inv.nodeLog n).1
      rw [sim.core.log] at good
      show TermLog.LogOK Entry.term s (_ ++ node.rd.entries)
      rw [entries]
      exact good

theorem Sim.restorage {r : Raft} (core : Raft.Sim cfg.voters s n r) {l : RaftLog} (layered : l.Layered)
    (view : l.view = r.raftLog.view) (committed : l.committed = r.raftLog.committed) :
    Raft.Sim cfg.voters s n { r with raftLog := l } :=
  { core with
    layered := layered
    log := core.log.trans view.symm
    safe := by simp only [view, committed]; exact core.safe
    stands := fun role => by simp only [view]; exact core.stands role
    leads := fun role => by simp only [view]; exact core.leads role
    next := fun role => by simp only [view]; exact core.next role }

theorem HostSim.save (sim : HostSim cfg s n node .accepted) {storage : MemStorage}
    {err : Option StorageError}
    (ok : node.r.raftLog.storage.save node.rd.entries node.rd.hardState = .ok (storage, err)) :
    HostSim cfg s n (Cluster.withStorage node storage) (if err = none then .saved else .stopped) := by
  have layered := sim.core.layered
  have enabled : node.advancec = true := by simpa using sim.flags
  by_cases none : node.rd.entries = []
  · obtain ⟨storage', saved, plain, entries⟩ := layered.plain.save node.rd.entries
      node.rd.hardState (o := 1) (by omega) (by simp) (by rw [none]; intro i e here; simp at here)
    obtain ⟨rfl, rfl⟩ : storage' = storage ∧ Option.none = err := by simpa [saved] using ok
    rw [if_pos none] at entries
    have view : RaftLog.view { node.r.raftLog with storage := storage' } = node.r.raftLog.view := by
      simp [RaftLog.view, entries]
    exact { sim with
      core := Sim.restorage sim.core ⟨plain, layered.positive, by simpa [entries] using layered.stored,
        layered.unstable, by simpa [entries] using layered.settled, by
          rw [view]; exact layered.committed⟩ view rfl
      flags := by simp [Cluster.withStorage, enabled]
      running := by simp
      waiting := by simp
      lent := fun _ some => absurd none some }
  obtain ⟨o, lent, before, _⟩ := sim.lent (by simp) none
  obtain ⟨stored, good⟩ := before rfl
  obtain ⟨storage', saved, plain, entries⟩ :=
    layered.plain.save node.rd.entries node.rd.hardState lent.positive stored lent.indexed
  obtain ⟨rfl, rfl⟩ : storage' = storage ∧ Option.none = err := by simpa [saved] using ok
  rw [if_neg none] at entries
  have below := lent.below
  have view : RaftLog.view { node.r.raftLog with storage := storage' } = node.r.raftLog.view := by
    simp only [RaftLog.view, entries]
    rw [List.take_append_of_le_length (by simp; omega), List.take_take, Nat.min_eq_left (by omega)]
  exact { sim with
    core := Sim.restorage sim.core ⟨plain, layered.positive, by simp [entries]; omega,
      layered.unstable, fun empty => absurd empty lent.live, by
        rw [view]; exact layered.committed⟩ view rfl
    flags := by simp [Cluster.withStorage, enabled]
    running := by simp
    waiting := by simp
    lent := fun _ _ =>
      ⟨o, ⟨lent.indexed, lent.positive, lent.old, lent.below, lent.live, lent.shared⟩, by simp, fun _ => ⟨
        by simp only [Cluster.withStorage, entries]; exact List.suffix_append _ _,
        by simp only [Cluster.withStorage, entries]; exact good⟩⟩ }

/-- `stableTo` takes entries off the unstable part that the storage holds. -/
theorem stableTo_layered {l : RaftLog} {i term : Nat} (layered : l.Layered)
    (held : l.unstable.offset ≤ i → termAt l.view i = some term →
      l.storage.entries.length = i ∧ TermLog.Agree i l.storage.entries l.view) :
    (l.stableTo i term).Layered ∧ (l.stableTo i term).view = l.view := by
  have positive := layered.positive
  have stored := layered.stored
  unfold RaftLog.stableTo Unstable.stableTo
  split
  · exact ⟨layered, rfl⟩
  rename_i high
  split
  · exact ⟨layered, rfl⟩
  rename_i e here
  split
  · exact ⟨layered, rfl⟩
  rename_i same
  have found : termAt l.view i = some term := by
    rw [termAt_pos (by omega), RaftLog.view_above stored (by omega),
      show i - 1 - (l.unstable.offset - 1) = i - l.unstable.offset by omega, here]
    simpa using same
  obtain ⟨length, agree⟩ := held (by omega) found
  have view : RaftLog.view { l with unstable := { l.unstable with
      entries := l.unstable.entries.drop (i - l.unstable.offset + 1), offset := i + 1 } } = l.view := by
    have rest : l.view.drop i = l.unstable.entries.drop (i - l.unstable.offset + 1) := by
      rw [RaftLog.view, List.drop_append, List.length_take, Nat.min_eq_left stored,
        List.drop_eq_nil_of_le (by simp; omega), List.nil_append,
        show i - (l.unstable.offset - 1) = i - l.unstable.offset + 1 by omega]
    simp only [RaftLog.view, Nat.add_sub_cancel]
    rw [agree.1, ← rest, ← RaftLog.view, List.take_append_drop]
  refine ⟨⟨layered.plain, by simp, by simp [length], ?_, fun _ => by simpa using length, ?_⟩, view⟩
  · have tail := layered.unstable.drop (i - l.unstable.offset + 1)
    rwa [show l.unstable.offset + (i - l.unstable.offset + 1) = i + 1 by omega] at tail
  · rw [view]; exact layered.committed

theorem advance_layered {l : RaftLog} (inv : TermLog.Inv Entry.term cfg.voters s)
    (layered : l.Layered) (log : s.log n = l.view) {rd : Ready}
    (saved : rd.entries ≠ [] → Saved s rd.entries l) :
    (Raft.advanceLog l rd).Layered ∧ (Raft.advanceLog l rd).view = l.view ∧
      (Raft.advanceLog l rd).committed = l.committed := by
  have good : TermLog.LogOK Entry.term s l.view := log ▸ (inv.nodeLog n).1
  have stable : ∀ e, rd.entries.getLast? = some e →
      (l.stableTo e.index e.term).Layered ∧ (l.stableTo e.index e.term).view = l.view := by
    intro e last
    obtain ⟨⟨front, whole⟩, stored⟩ := saved (by rintro none; simp [none] at last)
    have top : l.storage.entries.getLast? = some e := by rw [← whole, List.getLast?_append, last]; rfl
    have length := layered.plain.indexed.last top
    have positive := layered.positive
    refine stableTo_layered layered (fun above found => ⟨by omega, ?_⟩)
    have short : e.index ≤ l.view.length := by
      by_contra long
      rw [termAt_pos (show 0 < e.index by omega),
        List.getElem?_eq_none (show l.view.length ≤ e.index - 1 by omega)] at found
      cases found
    refine Raft.agree_of_termAt stored good (by omega) short ?_
    rw [found, termAt_pos (show 0 < e.index by omega), show e.index - 1 = l.storage.entries.length - 1 by omega,
      ← List.getLast?_eq_getElem?, top]
    rfl
  have applied : ∀ l' : RaftLog, l'.Layered ∧ l'.view = l.view → ∀ i, (l'.appliedTo i).Layered ∧
      (l'.appliedTo i).view = l.view :=
    fun l' fine i => ⟨⟨fine.1.plain, fine.1.positive, fine.1.stored, fine.1.unstable, fine.1.settled,
      fine.1.committed⟩, fine.2⟩
  unfold Raft.advanceLog
  cases last : rd.entries.getLast? with
  | none =>
    cases rd.committedEntries.getLast? with
    | none => exact ⟨layered, rfl, rfl⟩
    | some d =>
      obtain ⟨layered', view⟩ := applied l ⟨layered, rfl⟩ d.index
      exact ⟨layered', view, rfl⟩
  | some e =>
    cases rd.committedEntries.getLast? with
    | none =>
      obtain ⟨layered', view⟩ := stable e last
      exact ⟨layered', view, rfl⟩
    | some d =>
      obtain ⟨layered', view⟩ := applied _ (stable e last) d.index
      exact ⟨layered', view, rfl⟩

/-- The state in which `Advance` steps the node's own responses. -/
theorem HostSim.released (sim : HostSim cfg s n node .sent) (inv : TermLog.Inv Entry.term cfg.voters s) :
    Raft.Sim cfg.voters s n (node.r.advance node.rd) ∧
      (node.r.advance node.rd).raftLog.view = node.r.raftLog.view := by
  obtain ⟨layered, view, committed⟩ := advance_layered inv sim.core.layered sim.core.log
    (fun some => by
      obtain ⟨_, _, _, after⟩ := sim.lent (by simp) some
      exact after (.inr rfl))
  refine ⟨(Sim.restorage sim.core layered view committed).still
    ⟨rfl, rfl, rfl, rfl, rfl, .inr (.inr ⟨rfl, rfl, fun _ => rfl⟩)⟩ (fun msg inside => .inl ?_), view⟩
  simp only [Raft.held, Raft.advance, List.nil_append] at inside
  simp [Raft.held, inside]

theorem HostSim.advance (sim : HostSim cfg s n node .sent) (inv : TermLog.Inv Entry.term cfg.voters s)
    (enabled : node.advancec = true)
    (tame : ∀ call ∈ node.stepCalls .advance, Raft.Tame node.lentArray call.1 call.2)
    (works : Raft.Works (node.stepCalls .advance) (node.r.advance node.rd) node'.r)
    (done : node.advance = .ok node') :
    ∃ s', TermLog.Moves Entry.term cfg.voters n s s' ∧ HostSim cfg s' n node' .idle := by
  obtain ⟨released, _⟩ := sim.released inv
  have each : ∀ call ∈ node.stepCalls .advance,
      Raft.Sound cfg.voters s n call.2 ∧ Raft.Tame node.lentArray call.1 call.2 := by
    intro call inside
    refine ⟨?_, tame call inside⟩
    simp only [Node.stepCalls, enabled, if_true] at inside
    exact sim.steps call.2 (callsFrom_mem inside)
  obtain ⟨⟨s', moves, core⟩, _⟩ := released.works inv each works
  refine ⟨s', moves, ?_⟩
  obtain ⟨r', _, last⟩ := Outcome.bind_eq_ok.mp done
  cases last
  exact ⟨sim.member, core, by simp, by simp, by simp, by simp, by simp, by simp, by simp⟩

end Keep

end Kvgo

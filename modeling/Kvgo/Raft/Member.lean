import Kvgo.Raft.Boot
import Kvgo.Raft.LogShape

/-! One process: the node loop on a storage, driven by its host and by whatever messages
arrive. The log keeps its shape as long as no snapshot is installed under a `Ready`. -/

namespace Kvgo

structure Member where
  proc : Proc
  delivered : List Entry := []

inductive MemberEvent where
  /-- A message, a request or a tick. -/
  | input (arm : Node.Event)
  | ready
  | save
  | send
  | advance
  | compact (index : Nat)
  deriving DecidableEq

namespace Member

/-- A node that `newRaft` made, at the head of its loop. -/
def start (cfg : Config) : Member where
  proc :=
    match Node.setupNode cfg with
    | .error p => .down (some p) cfg.storage
    | .ok node =>
      match node.loopTop with
      | .error p => .down (some p) cfg.storage
      | .ok node => .up node .idle

def save (node : Node) : Proc :=
  match node.r.raftLog.storage.save node.rd.entries node.rd.hardState with
  | .error p => .down (some p) node.r.raftLog.storage
  | .ok (storage, none) => .up (Cluster.withStorage node storage) .saved
  | .ok (storage, some _) => .up (Cluster.withStorage node storage) .stopped

def compact (threshold : Nat) (node : Node) (phase : Phase) (index : Nat) : Proc :=
  match node.r.raftLog.storage.maybeCompact threshold index with
  | .error p => .down (some p) node.r.raftLog.storage
  | .ok (storage, _) => .up (Cluster.withStorage node storage) phase

def step (threshold : Nat) (p : Member) (e : MemberEvent) : Member :=
  match p.proc with
  | .down _ _ => p
  | .up node phase =>
    match e with
    | .input arm =>
      if arm = .accept ∨ arm = .advance then p else { p with proc := Cluster.run node phase arm }
    | .ready =>
      if phase = .idle ∧ node.readyc = true then
        { proc := Cluster.run node .accepted .accept
          delivered := p.delivered ++ node.rd.committedEntries }
      else p
    | .save => if phase = .accepted then { p with proc := save node } else p
    | .send => if phase = .saved then { p with proc := .up node .sent } else p
    | .advance => if phase = .sent then { p with proc := Cluster.run node .idle .advance } else p
    | .compact index => { p with proc := compact threshold node phase index }

end Member

/-! What a node has offered its host. -/

namespace Node

def handed (node : Node) : Nat :=
  node.r.raftLog.applied + if node.advancec then node.rd.committedEntries.length else 0

/-- The entries of a `Ready` start at `o`. They may share their array with the log. -/
structure Offer (node : Node) (phase : Phase) (o : Nat) : Prop where
  positive : 0 < o
  indexed : IndexedFrom o node.rd.entries
  array : node.rdArray ≤ node.r.raftLog.unstable.array
  offset : node.r.raftLog.unstable.offset ≤ o
  shared : node.rdArray = node.r.raftLog.unstable.array →
    node.r.raftLog.unstable.offset = o ∧ ∀ k, k < node.rd.entries.length →
      ∃ e : Entry, node.r.raftLog.unstable.backing[k]? = some (some e)
  alive : node.rd.entries ≠ [] → node.r.raftLog.unstable.entries ≠ []
  next : IndexedFrom (node.r.raftLog.applied + 1) node.rd.committedEntries
  bound : node.r.raftLog.applied + node.rd.committedEntries.length ≤ node.r.raftLog.committed
  hard : ∀ hs, node.rd.hardState = some hs → hs.committedIndex ≤ node.r.raftLog.committed
  unsaved : phase = .idle ∨ phase = .accepted → node.rd.entries ≠ [] →
    node.r.raftLog.storage.snap.lastIncludedIndex < o + node.rd.entries.length ∧
      node.r.raftLog.applied + node.rd.committedEntries.length < o + node.rd.entries.length ∧
      node.r.raftLog.storage.hd.committedIndex < o + node.rd.entries.length
  vouched : phase = .idle ∨ phase = .accepted → ∀ hs, node.rd.hardState = some hs →
    node.r.raftLog.applied + node.rd.committedEntries.length ≤ hs.committedIndex ∧
      node.r.raftLog.storage.snap.lastIncludedIndex ≤ hs.committedIndex ∧
      (node.rd.entries.length = 0 → hs.committedIndex ≤ node.r.raftLog.storage.lastIndex) ∧
      (0 < node.rd.entries.length → hs.committedIndex < o + node.rd.entries.length)
  saved : phase = .saved ∨ phase = .sent → node.rd.entries ≠ [] →
    node.r.raftLog.storage.lastIndex + 1 = o + node.rd.entries.length

theorem sharedEntries_spec {u : Unstable} {rd : Ready}
    (written : ∀ k, k < rd.entries.length → ∃ e : Entry, u.backing[k]? = some (some e)) :
    (sharedEntries u rd).length = rd.entries.length ∧
      ∀ (k : Nat) (e : Entry), (sharedEntries u rd)[k]? = some e → u.backing[k]? = some (some e) := by
  have size : rd.entries.length ≤ u.backing.length := by
    by_contra short
    obtain ⟨e, here⟩ := written u.backing.length (by omega)
    exact absurd (List.getElem?_eq_some_iff.mp here).1 (Nat.lt_irrefl _)
  have length : (u.backing.take rd.entries.length).length = rd.entries.length := by
    rw [List.length_take]
    omega
  have all : (sharedEntries u rd).map some = u.backing.take rd.entries.length := by
    apply filterMap_id_all
    intro x inside
    obtain ⟨k, bound, rfl⟩ := List.mem_iff_getElem.mp inside
    obtain ⟨e, here⟩ := written k (by omega)
    exact ⟨e, by rw [List.getElem_take, ← Option.some_inj, ← List.getElem?_eq_getElem, here]⟩
  constructor
  · rw [← length, ← all, List.length_map]
  · intro k e here
    have bound := (List.getElem?_eq_some_iff.mp here).1
    have there : ((sharedEntries u rd).map some)[k]? = some (some e) := by
      rw [List.getElem?_map, here]
      rfl
    rw [all, List.getElem?_take] at there
    split at there
    · exact there
    · cases there

theorem Offer.onward {node : Node} {phase : Phase} {o : Nat} {r' : Raft} (offer : Offer node phase o)
    (onward : RaftLog.Onward node.r.raftLog r'.raftLog) : Offer (node.withRaft r') phase o := by
  have rewrites := onward.rewrites
  have array := offer.array
  have commit := onward.committed
  have down := onward.down
  have offset := offer.offset
  -- the facts that do not depend on what the shared array holds
  have rest : ∀ entries : List Entry, entries.length = node.rd.entries.length → IndexedFrom o entries →
      ∀ node' : Node, node'.r = r' → node'.rdArray = node.rdArray →
        node'.rd = { node.rd with entries } → Offer node' phase o := by
    intro entries size indexed node' r rdArray rd
    have nonempty : entries ≠ [] → node.rd.entries ≠ [] := by
      intro some none
      rw [none, List.length_nil] at size
      exact some (List.length_eq_zero_iff.mp size)
    have index : node.rdArray = r'.raftLog.unstable.array → r'.raftLog.unstable.offset = o ∧
        ∀ k, k < entries.length → ∃ e : Entry, r'.raftLog.unstable.backing[k]? = some (some e) := by
      intro same
      have still : r'.raftLog.unstable.array = node.r.raftLog.unstable.array := by
        have := rewrites.array
        omega
      obtain ⟨place, written⟩ := offer.shared (by omega)
      refine ⟨(rewrites.offset still).trans place, fun k inside => ?_⟩
      obtain ⟨e, here⟩ := written k (by omega)
      exact rewrites.kept still k e here
    constructor
    · exact offer.positive
    · rw [rd]; exact indexed
    · rw [rdArray, r]; exact array.trans rewrites.array
    · rw [r]; omega
    · rw [rdArray, r, rd]; exact index
    · rw [rd, r]; exact fun some => onward.alive (offer.alive (nonempty some))
    · rw [rd, r, onward.applied]; exact offer.next
    · rw [rd, r, onward.applied]; exact offer.bound.trans commit
    · rw [rd, r]; exact fun hs here => (offer.hard hs here).trans commit
    · rw [rd, r, onward.storage, onward.applied]
      intro here some
      have := offer.unsaved here (nonempty some)
      dsimp only
      omega
    · rw [rd, r, onward.storage, onward.applied]
      intro here hs carried
      have := offer.vouched here hs carried
      dsimp only
      omega
    · rw [rd, r, onward.storage]
      intro here some
      have := offer.saved here (nonempty some)
      dsimp only
      omega
  unfold Node.withRaft
  split
  · rename_i same
    have still : r'.raftLog.unstable.array = node.r.raftLog.unstable.array := by
      have := rewrites.array
      omega
    obtain ⟨place, written⟩ := offer.shared (by omega)
    have rewritten : ∀ k, k < node.rd.entries.length →
        ∃ e : Entry, r'.raftLog.unstable.backing[k]? = some (some e) := by
      intro k inside
      obtain ⟨e, here⟩ := written k inside
      exact rewrites.kept still k e here
    have spec := sharedEntries_spec rewritten
    refine rest _ spec.1 (fun k e here => ?_) _ rfl rfl rfl
    have := onward.shape.placed.backed k e (spec.2 k e here)
    rw [rewrites.offset still, place] at this
    exact this
  · exact rest _ rfl offer.indexed _ rfl rfl rfl

/-- The state machine and the messages that wait for `Advance`. -/
structure Steady (node : Node) : Prop where
  shape : RaftLog.Shape node.r.raftLog
  after : ∀ msg ∈ node.r.msgsAfterAppend, afterAppend msg.type = true
  steps : ∀ msg ∈ node.stepsOnAdvance, afterAppend msg.type = true
  prev : ∀ hs, node.prevHard = some hs → hs.committedIndex ≤ node.r.raftLog.committed
  persisted : node.r.raftLog.storage.hd.committedIndex ≤ node.r.raftLog.committed

/-- The head of the loop offers what the log holds. -/
theorem Steady.offer {node : Node} (steady : Steady node) {rd : Ready} (ready : node.ready = .ok rd) :
    Offer { node with rd, rdArray := node.r.raftLog.unstable.array, readyc := true } .idle
      node.r.raftLog.unstable.offset := by
  have shows := ready_shows ready
  have entries := shows.entries
  have hard : ∀ hs, rd.hardState = some hs → hs = node.r.hardState := by
    intro hs here
    rw [shows.hardState] at here
    split at here
    · cases here
    · cases here; rfl
  have placed := steady.shape.placed
  obtain ⟨indexed, bound⟩ := steady.shape.nextCommittedEnts shows.committed
  refine ⟨placed.offset, by rw [entries]; exact placed.indexed, Nat.le_refl _, Nat.le_refl _,
    fun _ => ⟨rfl, fun k inside => ?_⟩, by rw [entries]; exact fun some => some,
    indexed, bound, fun hs here => ?_, fun _ some => ?_,
    fun _ hs here => ?_, fun impossible => ?_⟩
  · dsimp only at inside
    rw [entries] at inside
    exact ⟨_, Unstable.backing_entries (List.getElem?_eq_getElem inside)⟩
  · rw [hard hs here]
    exact Nat.le_refl _
  · dsimp only at some ⊢
    rw [entries] at some ⊢
    have last := RaftLog.lastIndex_cons placed.indexed some
    have low := steady.shape.low
    have high := steady.shape.high
    have persisted := steady.persisted
    omega
  · dsimp only at here ⊢
    rw [hard hs here, entries]
    have low := steady.shape.low
    have high := steady.shape.high
    refine ⟨bound, low, fun none => ?_, fun some => ?_⟩
    · rw [RaftLog.lastIndex_nil (List.length_eq_zero_iff.mp none)] at high
      exact high
    · have last := RaftLog.lastIndex_cons placed.indexed (List.length_pos_iff.mp some)
      show node.r.raftLog.committed < _
      omega
  · rcases impossible with impossible | impossible <;> cases impossible

structure Kept (node : Node) (phase : Phase) : Prop where
  steady : Steady node
  arms : phase = .idle ∧ node.advancec = false ∨
    phase ≠ .idle ∧ node.advancec = true ∧ node.readyc = false
  offer : node.readyc = true ∨ node.advancec = true → ∃ o, Offer node phase o
  reached : phase ≠ .stopped →
    node.r.raftLog.storage.hd.committedIndex ≤ node.r.raftLog.storage.lastIndex

/-- What an event does to the cursors of the log, with `new` entries handed out. -/
structure Grows (node node' : Node) (new : Nat) : Prop where
  applied : node.r.raftLog.applied ≤ node'.r.raftLog.applied
  committed : node.r.raftLog.committed ≤ node'.r.raftLog.committed
  handed : node'.handed = node.handed + new
  tight : RaftLog.Tight node.r.raftLog → RaftLog.Tight node'.r.raftLog

def Plain (m : Message) : Prop := RaftLog.Consecutive m ∧ m.type ≠ .msgSnap

theorem plain_timer {m : Message} (timer : Raft.isTimer m) : Plain m := by
  constructor
  · intro kind
    rcases timer.2 with other | other | other <;> rw [kind] at other <;> cases other
  · rcases timer.2 with other | other | other <;> rw [other] <;> decide

theorem plain_response {m : Message} (response : afterAppend m.type = true) : Plain m := by
  constructor
  · intro kind
    rw [kind] at response
    cases response
  · intro kind
    rw [kind] at response
    cases response

theorem works_onward {calls : List (Raft × Message)} {r r' : Raft}
    (plain : ∀ call ∈ calls, Plain call.2) (works : Raft.Works calls r r')
    (shape : RaftLog.Shape r.raftLog) (after : ∀ msg ∈ r.msgsAfterAppend, afterAppend msg.type = true) :
    RaftLog.Onward r.raftLog r'.raftLog ∧ ∀ msg ∈ r'.msgsAfterAppend, afterAppend msg.type = true := by
  refine works.keeps (P := fun s => RaftLog.Onward r.raftLog s.raftLog ∧
    ∀ msg ∈ s.msgsAfterAppend, afterAppend msg.type = true) ?_ ?_ ⟨.refl shape, after⟩
  · intro s s' good same
    rw [same.raftLog, same.msgsAfterAppend]
    exact good
  · intro s0 m s s' call _ good act
    have fine : Plain m := call.elim (fun inside => plain _ inside) plain_timer
    exact ⟨good.1.trans (good.1.shape.moves_star fine.1 fine.2 act.moves), act.after good.2⟩

theorem withRaft_committedEntries (node : Node) (r : Raft) :
    (node.withRaft r).rd.committedEntries = node.rd.committedEntries := by
  unfold Node.withRaft
  split <;> rfl

theorem Kept.top {node node' : Node} {phase : Phase} (kept : Kept node phase)
    (top : node.loopTop = .ok node') : Kept node' phase ∧ Grows node node' 0 := by
  rcases Cluster.loopTop_cases top with ⟨rfl, _⟩ | ⟨idle, _, rd, ready, rfl⟩
  · exact ⟨kept, Nat.le_refl _, Nat.le_refl _, rfl, fun tight => tight⟩
  · obtain ⟨rfl, _⟩ := kept.arms.resolve_right (by simp [idle])
    refine ⟨⟨⟨kept.steady.shape, kept.steady.after, kept.steady.steps, kept.steady.prev,
      kept.steady.persisted⟩, .inl ⟨rfl, idle⟩, fun _ => ⟨_, kept.steady.offer ready⟩, kept.reached⟩, Nat.le_refl _, Nat.le_refl _, ?_,
      fun tight => tight⟩
    simp [handed, idle]

theorem Grows.trans {node node' node'' : Node} {n n' : Nat} (first : Grows node node' n)
    (second : Grows node' node'' n') : Grows node node'' (n + n') where
  applied := first.applied.trans second.applied
  committed := first.committed.trans second.committed
  handed := by rw [second.handed, first.handed, Nat.add_assoc]
  tight before := second.tight (first.tight before)

/-- The state machine works on while the host does what it does. -/
theorem Kept.onward {node : Node} {phase : Phase} {r' : Raft} (kept : Kept node phase)
    (onward : RaftLog.Onward node.r.raftLog r'.raftLog)
    (after : ∀ msg ∈ r'.msgsAfterAppend, afterAppend msg.type = true) :
    Kept (node.withRaft r') phase ∧ Grows node (node.withRaft r') 0 := by
  obtain ⟨r, steps, prevHard, readyc, advancec⟩ := withRaft_rest node r'
  refine ⟨⟨⟨by rw [r]; exact onward.shape, by rw [r]; exact after, by rw [steps]; exact kept.steady.steps,
    fun hs here => ?_, ?_⟩, by rw [advancec, readyc]; exact kept.arms, fun offered => ?_,
    by rw [r, onward.storage]; exact kept.reached⟩, ?_⟩
  · rw [r]
    exact (kept.steady.prev hs (by rw [← prevHard]; exact here)).trans onward.committed
  · rw [r, onward.storage]
    exact kept.steady.persisted.trans onward.committed
  · rw [advancec, readyc] at offered
    obtain ⟨o, offer⟩ := kept.offer offered
    exact ⟨o, offer.onward onward⟩
  · refine ⟨by rw [r, onward.applied], by rw [r]; exact onward.committed, ?_, by rw [r]; exact onward.tight⟩
    rw [handed, handed, r, onward.applied, advancec, withRaft_committedEntries, Nat.add_zero]

theorem Kept.accept {node : Node} (kept : Kept node .idle) (offered : node.readyc = true) :
    Kept node.accept .accepted ∧ Grows node node.accept node.rd.committedEntries.length := by
  obtain ⟨_, idle⟩ := kept.arms.resolve_right (by simp)
  obtain ⟨o, offer⟩ := kept.offer (.inl offered)
  refine ⟨⟨⟨kept.steady.shape, by simp [Node.accept], fun msg inside => ?_, kept.steady.prev,
    kept.steady.persisted⟩, .inr ⟨by simp, rfl, rfl⟩, fun _ => ⟨o, ?_⟩, fun _ => kept.reached (by simp)⟩, Nat.le_refl _, Nat.le_refl _, ?_, fun tight => tight⟩
  · rcases List.mem_append.mp inside with old | new
    · exact kept.steady.steps msg old
    · exact kept.steady.after msg (List.mem_filter.mp new).1
  · exact ⟨offer.positive, offer.indexed, offer.array, offer.offset, offer.shared, offer.alive, offer.next,
      offer.bound, offer.hard, fun _ => offer.unsaved (.inl rfl), fun _ => offer.vouched (.inl rfl), by simp⟩
  · simp [handed, Node.accept, idle]

def promoted (l : RaftLog) (rd : Ready) : RaftLog :=
  match rd.entries.getLast? with
  | none => l
  | some e => l.stableTo e.index e.term

theorem advanceLog_eq (l : RaftLog) (rd : Ready) : Raft.advanceLog l rd =
    match rd.committedEntries.getLast? with
    | none => promoted l rd
    | some e => (promoted l rd).appliedTo e.index := rfl

theorem promoted_cursors (l : RaftLog) (rd : Ready) :
    (promoted l rd).applied = l.applied ∧ (promoted l rd).committed = l.committed := by
  unfold promoted
  split <;> exact ⟨rfl, rfl⟩

theorem Offer.promoted {node : Node} {o : Nat} (offer : Offer node .sent o)
    (shape : RaftLog.Shape node.r.raftLog) : RaftLog.Shape (promoted node.r.raftLog node.rd) ∧
      (RaftLog.Tight node.r.raftLog → RaftLog.Tight (Node.promoted node.r.raftLog node.rd)) := by
  unfold Node.promoted
  split
  · exact ⟨shape, fun tight => tight⟩
  · rename_i e last
    have some : node.rd.entries ≠ [] := by
      intro none
      rw [none] at last
      cases last
    have place := offer.indexed.last last
    have reach := offer.saved (.inr rfl) some
    obtain ⟨shaped, tight⟩ := shape.stableTo e.term (show e.index ≤ _ by omega)
    exact ⟨shaped, fun before => tight before (by omega)⟩

theorem advanceLog_committed (l : RaftLog) (rd : Ready) :
    (Raft.advanceLog l rd).committed = l.committed := by
  rw [advanceLog_eq]
  unfold promoted
  split <;> split <;> rfl

/-- Nothing that waits for `Advance` touches the storage. -/
theorem Kept.advance_storage {node node' : Node} (kept : Kept node .sent)
    (works : Raft.Works (node.stepCalls .advance) (node.r.advance node.rd) node'.r) :
    node'.r.raftLog.storage = node.r.raftLog.storage := by
  obtain ⟨_, out, _⟩ := kept.arms.resolve_left (by simp)
  refine works.keeps (P := fun r => r.raftLog.storage = node.r.raftLog.storage) ?_ ?_
    (Raft.advanceLog_storage _ _)
  · intro r r' same soft
    rw [soft.raftLog]
    exact same
  · intro r0 m r r' call _ same act
    have plain : Plain m := call.elim (fun inside => by
      simp only [stepCalls, out, if_true] at inside
      exact plain_response (kept.steady.steps _ (callsFrom_mem inside))) plain_timer
    exact (act.storage.resolve_right (fun snap => plain.2 snap.1)).trans same

theorem Kept.advance {node node' : Node} (kept : Kept node .sent)
    (works : Raft.Works (node.stepCalls .advance) (node.r.advance node.rd) node'.r)
    (done : node.advance = .ok node') : Kept node' .idle ∧ Grows node node' 0 := by
  obtain ⟨_, out, readyc⟩ := kept.arms.resolve_left (by simp)
  obtain ⟨o, offer⟩ := kept.offer (.inr out)
  have shape := kept.steady.shape
  obtain ⟨shaped, tight⟩ := offer.promoted shape
  obtain ⟨applied, committed⟩ := promoted_cursors node.r.raftLog node.rd
  -- the applied cursor
  have moved : RaftLog.Shape (Raft.advanceLog node.r.raftLog node.rd) ∧
      (Raft.advanceLog node.r.raftLog node.rd).applied =
        node.r.raftLog.applied + node.rd.committedEntries.length ∧
      (Raft.advanceLog node.r.raftLog node.rd).committed = node.r.raftLog.committed ∧
      (RaftLog.Tight node.r.raftLog → RaftLog.Tight (Raft.advanceLog node.r.raftLog node.rd)) := by
    rw [advanceLog_eq]
    have bound := offer.bound
    split
    · rename_i none
      rw [List.getLast?_eq_none_iff.mp none]
      exact ⟨shaped, by simp [applied], committed, tight⟩
    · rename_i e last
      have place := offer.next.last last
      refine ⟨⟨shaped.stored, shaped.placed, shaped.fits, shaped.low, ?_, shaped.high⟩, ?_, committed, tight⟩
      · show e.index ≤ (promoted node.r.raftLog node.rd).committed
        omega
      · show e.index = _
        omega
  have plain : ∀ call ∈ node.stepCalls .advance, Plain call.2 := by
    intro call inside
    simp only [stepCalls, out, if_true] at inside
    exact plain_response (kept.steady.steps _ (callsFrom_mem inside))
  obtain ⟨onward, after⟩ := works_onward plain works moved.1 kept.steady.after
  obtain ⟨r', _, shut⟩ := Outcome.bind_eq_ok.mp done
  cases shut
  change RaftLog.Onward (Raft.advanceLog node.r.raftLog node.rd) r'.raftLog at onward
  have commit := onward.committed
  rw [moved.2.2.1] at commit
  have storage : r'.raftLog.storage = node.r.raftLog.storage :=
    onward.storage.trans (Raft.advanceLog_storage _ _)
  refine ⟨⟨⟨onward.shape, after, by simp, fun hs here => ?_, ?_⟩, .inl ⟨rfl, rfl⟩, ?_, fun _ => ?_⟩, ?_⟩
  · dsimp only at here
    split at here
    · exact (kept.steady.prev hs here).trans commit
    · exact (offer.hard hs here).trans commit
  · rw [storage]
    exact kept.steady.persisted.trans commit
  · intro either
    simp [readyc] at either
  · rw [storage]
    exact kept.reached (by simp)
  · refine ⟨?_, commit, ?_, fun before => onward.tight (moved.2.2.2 before)⟩
    · show node.r.raftLog.applied ≤ r'.raftLog.applied
      rw [onward.applied, moved.2.1]
      omega
    · simp only [handed, out, if_true, onward.applied, moved.2.1]
      simp

/-- A saved `Ready`; after an error the host stops. -/
theorem Kept.save {node : Node} (kept : Kept node .accepted) {storage : MemStorage}
    {err : Option StorageError}
    (ok : node.r.raftLog.storage.save node.rd.entries node.rd.hardState = .ok (storage, err)) :
    Kept (Cluster.withStorage node storage) (if err.isSome then .stopped else .saved) ∧
      Grows node (Cluster.withStorage node storage) 0 := by
  obtain ⟨_, out, readyc⟩ := kept.arms.resolve_left (by simp)
  obtain ⟨o, offer⟩ := kept.offer (.inr out)
  have saved := kept.steady.shape.save offer.indexed offer.positive offer.offset
    (fun some => ⟨(offer.unsaved (.inr rfl) some).1, offer.alive some⟩) ok
  -- the hard state is the one of the Ready or the old one
  have hard : (∃ hs, node.rd.hardState = some hs ∧ storage.hd = hs) ∨
      storage.hd = node.r.raftLog.storage.hd := by
    rw [MemStorage.save_hd ok]
    exact MemStorage.effectiveHard_cases _ _
  refine ⟨⟨⟨saved.shape, kept.steady.after, kept.steady.steps, kept.steady.prev, ?_⟩,
    .inr ⟨by split <;> simp, out, readyc⟩, fun _ => ⟨o, ?_⟩, fun running => ?_⟩,
    Nat.le_refl _, Nat.le_refl _, rfl, ?_⟩
  · show storage.hd.committedIndex ≤ node.r.raftLog.committed
    rcases hard with ⟨hs, carried, same⟩ | same
    · rw [same]; exact offer.hard hs carried
    · rw [same]; exact kept.steady.persisted
  · refine ⟨offer.positive, offer.indexed, offer.array, offer.offset, offer.shared, offer.alive, offer.next,
      offer.bound, offer.hard, fun wrong => ?_, fun wrong => ?_, fun right some => saved.last ?_ some⟩
    · split at wrong <;> simp at wrong
    · split at wrong <;> simp at wrong
    · split at right
      · simp at right
      · simpa using (by assumption : ¬ err.isSome = true)
  · have fine : err.isSome = false := by
      split at running
      · simp at running
      · simpa using (by assumption : ¬ err.isSome = true)
    show storage.hd.committedIndex ≤ storage.lastIndex
    have before := kept.reached (by simp)
    by_cases none : node.rd.entries = []
    · rw [RaftLog.same_lastIndex saved.snap (saved.same (.inl none))]
      rcases hard with ⟨hs, carried, same⟩ | same
      · rw [same]
        exact (offer.vouched (.inr rfl) hs carried).2.2.1 (by rw [none]; rfl)
      · rw [same]
        exact before
    · have last := saved.last fine none
      rcases hard with ⟨hs, carried, same⟩ | same
      · have := (offer.vouched (.inr rfl) hs carried).2.2.2 (List.length_pos_iff.mpr none)
        rw [same]
        omega
      · have := (offer.unsaved (.inr rfl) none).2.2
        rw [same]
        omega
  · intro tight none
    have same : node.rd.entries = [] := by
      by_contra some
      exact offer.alive some none
    show node.r.raftLog.unstable.offset = storage.lastIndex + 1
    rw [RaftLog.same_lastIndex saved.snap (saved.same (.inl same))]
    exact tight none

theorem Kept.send {node : Node} (kept : Kept node .saved) : Kept node .sent := by
  obtain ⟨_, out, readyc⟩ := kept.arms.resolve_left (by simp)
  obtain ⟨o, offer⟩ := kept.offer (.inr out)
  exact ⟨kept.steady, .inr ⟨by simp, out, readyc⟩, fun _ => ⟨o, offer.positive, offer.indexed, offer.array,
    offer.offset, offer.shared, offer.alive, offer.next, offer.bound, offer.hard, by simp,
    by simp, fun _ => offer.saved (.inl rfl)⟩, fun _ => kept.reached (by simp)⟩

theorem Kept.handed_le {node : Node} {phase : Phase} (kept : Kept node phase) :
    node.handed ≤ node.r.raftLog.committed := by
  unfold handed
  split
  · rename_i out
    obtain ⟨o, offer⟩ := kept.offer (.inr out)
    exact offer.bound
  · exact kept.steady.shape.order

/-- Compaction up to an index that was handed out. -/
theorem Kept.compact {node : Node} {phase : Phase} (kept : Kept node phase) {threshold index : Nat}
    (bound : index ≤ node.handed) {storage : MemStorage} {err : Option StorageError}
    (ok : node.r.raftLog.storage.maybeCompact threshold index = .ok (storage, err)) :
    Kept (Cluster.withStorage node storage) phase ∧ Grows node (Cluster.withStorage node storage) 0 := by
  obtain ⟨first, stored⟩ := kept.steady.shape.stored
  rcases stored.maybeCompact ok with rfl | compacted
  · exact ⟨kept, Nat.le_refl _, Nat.le_refl _, rfl, fun tight => tight⟩
  obtain ⟨shape, tight⟩ := kept.steady.shape.compact compacted (bound.trans kept.handed_le)
  refine ⟨⟨⟨shape, kept.steady.after, kept.steady.steps, kept.steady.prev, ?_⟩, kept.arms,
    fun offered => ?_, fun running => ?_⟩, Nat.le_refl _, Nat.le_refl _, rfl, tight⟩
  · show storage.hd.committedIndex ≤ _
    rw [compacted.hd]
    exact kept.steady.persisted
  rotate_left
  · show storage.hd.committedIndex ≤ storage.lastIndex
    rw [compacted.hd, compacted.last]
    exact kept.reached running
  have handed : node.handed ≤ node.r.raftLog.applied + node.rd.committedEntries.length := by
    unfold Node.handed
    split <;> omega
  obtain ⟨o, offer⟩ := kept.offer offered
  refine ⟨o, offer.positive, offer.indexed, offer.array, offer.offset, offer.shared, offer.alive, offer.next,
    offer.bound, offer.hard, fun unsaved some => ?_, fun unsaved hs carried => ?_, fun saved some => ?_⟩
  · obtain ⟨_, below, persisted⟩ := offer.unsaved unsaved some
    refine ⟨?_, below, ?_⟩
    · show storage.snap.lastIncludedIndex < _
      rw [compacted.snap]
      exact Nat.lt_of_le_of_lt (bound.trans handed) below
    · show storage.hd.committedIndex < _
      rw [compacted.hd]
      exact persisted
  · obtain ⟨above, _, reach⟩ := offer.vouched unsaved hs carried
    show _ ∧ storage.snap.lastIncludedIndex ≤ _ ∧ (_ → _ ≤ storage.lastIndex) ∧ _
    rw [compacted.snap, compacted.last]
    exact ⟨above, (bound.trans handed).trans above, reach⟩
  · show storage.lastIndex + 1 = _
    rw [compacted.last]
    exact offer.saved saved some

end Node

end Kvgo

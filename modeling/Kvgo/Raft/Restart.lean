import Kvgo.Raft.Cursors
import Kvgo.Raft.Directory

/-! A process and its directory: what is found there once a `Ready` is saved. -/

namespace Kvgo

namespace Raft

def Blank (r : Raft) : Prop := isEmptyHardState (some r.hardState) = true

theorem blank_iff {r : Raft} : Blank r ↔ r.term = 0 ∧ r.votedFor = 0 ∧ r.raftLog.committed = 0 := by
  simp [Blank, isEmptyHardState, hardState, and_assoc]

def Termed (m : Message) : Prop :=
  m.type = .msgApp ∨ m.type = .msgHeartbeat ∨ m.type = .msgSnap → 0 < m.term

theorem Moves.committed {m : Message} {l l' : RaftLog} (moves : RaftLog.Moves m l l') :
    l.committed ≤ l'.committed := by
  cases moves with
  | append ents room source ok =>
    rcases RaftLog.appendEntries_eq_ok ok with ⟨_, rfl⟩ | ⟨_, _, _, _, _, _, rfl⟩ <;> exact Nat.le_refl _
  | commit i ok =>
    rcases RaftLog.commitTo_eq_ok ok with ⟨_, rfl⟩ | ⟨later, _, rfl⟩
    · exact Nat.le_refl _
    · exact Nat.le_of_lt later
  | restore snap storage kind carried applied => exact Nat.le_max_left _ _

theorem Moves.committed_star {m : Message} {l l' : RaftLog}
    (moves : Relation.ReflTransGen (RaftLog.Moves m) l l') : l.committed ≤ l'.committed := by
  induction moves with
  | refl => exact Nat.le_refl _
  | tail _ last ih => exact ih.trans (Moves.committed last)

/-- A node that has something to persist always will. -/
theorem Act.blank {m : Message} {r0 r r' : Raft} (termed : Termed m) (act : Act r0 m r r')
    (blank : Blank r') : Blank r := by
  have commit := Moves.committed_star act.moves
  rw [blank_iff] at blank ⊢
  obtain ⟨term, vote, committed⟩ := blank
  suffices same : r.term = 0 ∧ r.votedFor = 0 from ⟨same.1, same.2, by omega⟩
  cases act with
  | soft same => exact ⟨same.term ▸ term, same.votedFor ▸ vote⟩
  | emit => exact ⟨by simpa using term, by simpa using vote⟩
  | resend => exact ⟨by simpa using term, by simpa using vote⟩
  | follow later => rw [becomeFollower_term] at term; omega
  | yield start role bound kind =>
    have := termed kind
    rw [becomeFollower_term] at term
    omega
  | abdicate =>
    rw [becomeFollower_votedFor] at vote
    exact ⟨by simpa using term, by simpa using vote⟩
  | candidacy role => simp [recordVote] at term
  | lead role won taken appended =>
    obtain ⟨raftLog, _, rfl⟩ := appendEntry_eq appended
    have took := takeLead_spec taken
    rw [enqueue_term] at term
    rw [enqueue_votedFor] at vote
    exact ⟨took.term ▸ term, took.votedFor ▸ vote⟩
  | propose data role appended =>
    obtain ⟨raftLog, _, rfl⟩ := appendEntry_eq appended
    exact ⟨by simpa using term, by simpa using vote⟩
  | grant kind granted bound =>
    have term : r.term = 0 := by simpa using term
    have vote : m.fromId = 0 := by simpa using vote
    unfold grants at granted
    split at granted
    · rename_i can
      simp only [canVoteFor, vote, Bool.and_eq_true, Bool.not_eq_true', decide_eq_false_iff_not,
        Bool.and_eq_false_iff, ne_eq, Decidable.not_not] at can
      rcases can.2 with (other | none) | none
      · omega
      · exact ⟨term, none⟩
      · exact ⟨term, none⟩
    · cases granted
  | accept => exact ⟨by simpa using term, by simpa using vote⟩
  | refuse => exact ⟨by simpa using term, by simpa using vote⟩
  | beat => exact ⟨by simpa using term, by simpa using vote⟩
  | _ => exact ⟨term, vote⟩

theorem Works.blank {calls : List (Raft × Message)} {r r' : Raft}
    (termed : ∀ call ∈ calls, Termed call.2) (works : Works calls r r') (blank : Blank r') : Blank r := by
  refine works.keeps (P := fun s => Blank s → Blank r) ?_ ?_ (fun start => start) blank
  · intro s s' kept same after
    rw [blank_iff, same.term, same.votedFor, same.raftLog, ← blank_iff] at after
    exact kept after
  · intro s0 m s s' call _ kept act after
    refine kept (act.blank (call.elim (fun inside => termed _ inside) (fun timer => ?_)) after)
    intro kind
    rcases timer.2 with other | other | other <;> simp [other] at kind

end Raft

/-! The process and its files. -/

def Proc.storage : Proc → MemStorage
  | .up node _ => node.r.raftLog.storage
  | .down _ storage => storage

structure Journal where
  proc : Proc
  files : Files
  /-- The state machine when the last `Ready` was built. -/
  built : Raft

namespace Journal

/-- The head of the loop builds a `Ready` unless one is out or there is nothing to say. -/
def builtAfter (proc : Proc) (built : Raft) : Raft :=
  match proc with
  | .up node _ => if !node.advancec && node.hasReady then node.r else built
  | .down _ _ => built

def start (cfg : Config) (files : Files) : Journal where
  proc := (Member.start cfg).proc
  files := files
  built := builtAfter (Member.start cfg).proc (Raft.blank cfg)

def run (j : Journal) (proc : Proc) : Journal where
  proc := proc
  files := j.files.persistSnapshotMeta proc.storage.snap
  built := builtAfter proc j.built

def step (limit threshold : Nat) (j : Journal) (e : MemberEvent) : Journal :=
  match j.proc with
  | .down _ _ => j
  | .up node phase =>
    match e with
    | .input arm =>
      if arm = .accept ∨ arm = .advance then j else j.run (Cluster.run node phase arm)
    | .ready =>
      if phase = .idle ∧ node.readyc = true then j.run (Cluster.run node .accepted .accept) else j
    | .save =>
      if phase = .accepted then
        { j with
          proc := Member.save node
          files := j.files.save limit node.r.raftLog.storage node.rd.entries node.rd.hardState }
      else j
    | .send => if phase = .saved then { j with proc := .up node .sent } else j
    | .advance => if phase = .sent then j.run (Cluster.run node .idle .advance) else j
    | .compact index =>
      { j with
        proc := Member.compact threshold node phase index
        files := j.files.compact node.r.raftLog.storage
          (Member.compact threshold node phase index).storage }

/-- What a new process would start with if the directory opens to `opened`. -/
structure Recovered (cfg : Config) (opened : Option MemStorage) (built : Raft) (s : MemStorage) (r : Raft) :
    Prop where
  opens : opened = some s
  made : Raft.newRaft { cfg with storage := s, applied := s.snap.lastIncludedIndex } = .ok r
  term : r.term = built.term
  votedFor : r.votedFor = built.votedFor
  committed : r.raftLog.committed = built.raftLog.committed
  last : r.raftLog.lastIndex = built.raftLog.lastIndex
  entry : ∀ i, 0 < i → r.raftLog.entryAt i = built.raftLog.entryAt i

/-- The offered `Ready` against the state it was built from. -/
structure Built (node : Node) (built : Raft) : Prop where
  shape : RaftLog.Shape built.raftLog
  tight : RaftLog.Tight built.raftLog
  storage : built.raftLog.storage = node.r.raftLog.storage
  entries : node.rd.entries = built.raftLog.unstable.entries
  hard : node.rd.hardState = if some built.hardState = node.prevHard then none else some built.hardState
  quiet : Raft.Blank built → isEmptyHardState (some node.r.raftLog.storage.hd) = true
  older : Raft.Blank node.r → Raft.Blank built

/-- What is persisted when a `Ready` is saved is the hard state it was built from. -/
theorem Built.effectiveHard {node : Node} {built : Raft} (fresh : Built node built)
    (prev : node.prevHard = none ∨ node.prevHard = some node.r.raftLog.storage.hd) :
    node.r.raftLog.storage.effectiveHard node.rd.hardState = built.hardState := by
  unfold MemStorage.effectiveHard
  rw [fresh.hard]
  split
  · rename_i same
    rw [if_pos (by rfl)]
    rcases prev with none | stored
    · rw [none] at same
      cases same
    · rw [stored] at same
      exact (Option.some_inj.mp same).symm
  · split
    · rename_i empty
      have stored := fresh.quiet empty
      have empty := Raft.blank_iff.mp empty
      simp only [isEmptyHardState, Bool.and_eq_true, beq_iff_eq] at stored
      obtain ⟨⟨term, vote⟩, commit⟩ := stored
      cases hd : node.r.raftLog.storage.hd
      rw [hd] at term vote commit
      simp only at term vote commit
      rw [Raft.hardState, term, vote, commit, empty.1, empty.2.1, empty.2.2]
    · rfl

structure Carries (storage : MemStorage) (log : RaftLog) : Prop where
  stored : ∃ first, storage.Stored first
  last : storage.lastIndex = log.lastIndex
  entry : ∀ i, 0 < i → (if storage.lastIndex + 1 ≤ i then none else storage.entryAt i) = log.entryAt i

section Saved

variable {node : Node} {built : Raft} {storage : MemStorage}

/-- Without entries in the Ready the storage already had the log. -/
theorem Built.carries_old (fresh : Built node built) (none : node.rd.entries = [])
    (done : node.r.raftLog.storage.save node.rd.entries node.rd.hardState = .ok (storage, .none)) :
    Carries storage built.raftLog := by
  have snap := MemStorage.save_snap done
  obtain ⟨first, stored⟩ := fresh.shape.stored
  rw [fresh.storage] at stored
  have empty : built.raftLog.unstable.entries = [] := by rw [← fresh.entries]; exact none
  have kept : storage.entries = node.r.raftLog.storage.entries := by
    unfold MemStorage.save at done
    rw [none] at done
    split at done
    · cases done; rfl
    · cases done; rfl
  have last := RaftLog.same_lastIndex snap kept
  have tight := fresh.tight empty
  rw [fresh.storage] at tight
  refine ⟨⟨first, stored.positive, by rw [snap]; exact stored.low, by rw [snap, kept]; exact stored.high,
    by rw [kept]; exact stored.indexed⟩, ?_, fun i positive => ?_⟩
  · rw [RaftLog.lastIndex_nil empty, fresh.storage, last]
  · rw [RaftLog.entryAt, tight, ← last]
    split
    · rw [empty]; rfl
    · rw [MemStorage.entryAt, MemStorage.entryAt, fresh.storage, kept, MemStorage.firstIndex,
        MemStorage.firstIndex, kept, snap]

/-- The entries of the Ready replace the end of the stored log. -/
theorem Built.carries_new (fresh : Built node built) (some : node.rd.entries ≠ [])
    (whole : node.r.raftLog.storage.snap.lastIncludedIndex = 0)
    (done : node.r.raftLog.storage.save node.rd.entries node.rd.hardState = .ok (storage, none)) :
    Carries storage built.raftLog := by
  obtain ⟨first, stored⟩ := fresh.shape.stored
  rw [fresh.storage] at stored
  have placed := fresh.shape.placed
  have offset := fresh.shape.fits
  have indexed : IndexedFrom built.raftLog.unstable.offset node.rd.entries := by
    rw [fresh.entries]
    exact placed.indexed
  have start : MemStorage.Stored { node.r.raftLog.storage with
      hd := node.r.raftLog.storage.effectiveHard node.rd.hardState } first :=
    ⟨stored.positive, stored.low, stored.high, stored.indexed⟩
  unfold MemStorage.save at done
  rw [if_neg (fun both => some both.1)] at done
  rcases start.truncateAndAppend indexed placed.offset
      (by show node.r.raftLog.storage.snap.lastIncludedIndex < _; have := placed.offset; omega) done with
    ⟨_, failed⟩ | ⟨_, _, replaced⟩
  · exact absurd rfl (failed some)
  have last := replaced.last
  have here := RaftLog.lastIndex_cons placed.indexed (by rw [← fresh.entries]; exact some)
  rw [← fresh.entries] at here
  refine ⟨replaced.exists_stored, by omega, fun i positive => ?_⟩
  rw [RaftLog.entryAt, ← fresh.entries, fresh.storage]
  split
  · rename_i beyond
    rw [if_pos (by omega), List.getElem?_eq_none (by omega)]
  · split
    · rename_i upper
      exact replaced.above i upper
    · rename_i lower
      exact (replaced.below i (by show node.r.raftLog.storage.snap.lastIncludedIndex < i; omega)
        (by omega)).trans rfl

theorem Built.carries (fresh : Built node built) (whole : node.r.raftLog.storage.snap.lastIncludedIndex = 0)
    (done : node.r.raftLog.storage.save node.rd.entries node.rd.hardState = .ok (storage, none)) :
    Carries storage built.raftLog := by
  by_cases empty : node.rd.entries = []
  · exact fresh.carries_old empty done
  · exact fresh.carries_new empty whole done

theorem newRaft_whole {cfg : Config} (valid : Raft.validate cfg = true)
    (zero : storage.snap.lastIncludedIndex = 0) :
    ∃ r, Raft.newRaft { cfg with storage, applied := storage.snap.lastIncludedIndex } = .ok r := by
  unfold Raft.newRaft
  have still : Raft.validate { cfg with storage, applied := storage.snap.lastIncludedIndex } = true := valid
  rw [if_neg (by rw [still]; simp)]
  simp only [zero]
  rw [if_neg (Nat.not_lt_zero _), if_neg (by simp)]
  exact ⟨_, rfl⟩

theorem Carries.begins {log : RaftLog} (carries : Carries storage log)
    (zero : storage.snap.lastIncludedIndex = 0) : storage.firstIndex - 1 = 0 := by
  obtain ⟨first, stored⟩ := carries.stored
  have fits := stored.low
  have positive := stored.positive
  obtain rfl : first = 1 := by omega
  by_cases none : storage.entries = []
  · simp [MemStorage.firstIndex, none, zero]
  · rw [stored.firstIndex none]

end Saved

theorem Built.recovered {node : Node} {built : Raft} {cfg : Config} {reopened : Option MemStorage}
    {storage : MemStorage} (fresh : Built node built) (valid : Raft.validate cfg = true)
    (prev : node.prevHard = none ∨ node.prevHard = some node.r.raftLog.storage.hd)
    (whole : node.r.raftLog.storage.snap.lastIncludedIndex = 0)
    (opened : reopened = some storage)
    (done : node.r.raftLog.storage.save node.rd.entries node.rd.hardState = .ok (storage, none)) :
    ∃ s r, Recovered cfg reopened built s r := by
  have hd : storage.hd = built.hardState := (MemStorage.save_hd done).trans (fresh.effectiveHard prev)
  have zero : storage.snap.lastIncludedIndex = 0 := by rw [MemStorage.save_snap done]; exact whole
  have carries := fresh.carries whole done
  have committed : (if isEmptyHardState (some storage.hd) then storage.firstIndex - 1
      else storage.hd.committedIndex) = built.raftLog.committed := by
    rw [hd]
    split
    · rename_i empty
      rw [carries.begins zero, (Raft.blank_iff.mp empty).2.2]
    · rfl
  obtain ⟨r, made⟩ := newRaft_whole valid zero
  obtain ⟨log, _, _⟩ := Raft.newRaft_log made
  have born := Raft.newRaft_fresh made
  refine ⟨storage, r, opened, made, ?_, ?_, ?_, ?_, fun i positive => ?_⟩
  · rw [born.term]
    show storage.hd.term = _
    rw [hd]
    rfl
  · rw [born.votedFor]
    show storage.hd.votedFor = _
    rw [hd]
    rfl
  · rw [log]
    exact committed
  · rw [log]
    exact (RaftLog.lastIndex_nil rfl).trans carries.last
  · rw [log, ← carries.entry i positive, RaftLog.entryAt]
    split <;> rfl

/-! Runs. -/

open Node

def node? (j : Journal) : Option Node :=
  match j.proc with
  | .up node _ => some node
  | .down _ _ => none

def unsaved? (j : Journal) : Option Node :=
  match j.proc with
  | .up node .idle | .up node .accepted => some node
  | .up _ _ | .down _ _ => none

theorem unsaved?_early {j : Journal} {node : Node} {phase : Phase} (up : j.proc = .up node phase)
    (early : phase = .idle ∨ phase = .accepted) : j.unsaved? = some node := by
  rcases early with rfl | rfl <;> rw [unsaved?, up]

def Regular : Node.Event → Prop
  | .step m => Plain m ∧ Raft.Termed m
  | _ => True

instance (m : Message) : Decidable (Raft.Termed m) := by
  unfold Raft.Termed
  infer_instance

instance : (arm : Node.Event) → Decidable (Regular arm)
  | .step m => inferInstanceAs (Decidable (Plain m ∧ Raft.Termed m))
  | .propose _ | .campaign | .readIndex _ | .tick | .accept | .advance => isTrue trivial

theorem Regular.of_step {arm : Node.Event} (regular : Regular arm) (m : Message) (same : arm = .step m) :
    Plain m ∧ Raft.Termed m := by
  subst same
  exact regular

/-- A message may come that is no snapshot and is built as every node builds it. No
append may overwrite an entry of the `Ready` that the host is about to save, in the
array that the two share. -/
def Undisturbed (limit threshold : Nat) (j : Journal) : MemberEvent → Prop
  | .input arm => Regular arm ∧
      ∀ node ∈ j.unsaved?, ∀ node' ∈ (j.step limit threshold (.input arm)).node?,
        node'.advancec = false ∧ node'.hasReady = true ∨ node'.rd.entries = node.rd.entries
  | .compact _ => False
  | _ => True

instance (limit threshold : Nat) (j : Journal) :
    (e : MemberEvent) → Decidable (Undisturbed limit threshold j e)
  | .input arm => inferInstanceAs (Decidable (Regular arm ∧
      ∀ node ∈ j.unsaved?, ∀ node' ∈ (j.step limit threshold (.input arm)).node?,
        node'.advancec = false ∧ node'.hasReady = true ∨ node'.rd.entries = node.rd.entries))
  | .compact _ => isFalse id
  | .ready | .save | .send | .advance => isTrue trivial

/-- The batch that `Save` writes has a frame, and the segment it may start a name. -/
def Readable (j : Journal) : MemberEvent → Prop
  | .save => ∀ node ∈ j.node?,
      (⟨node.r.raftLog.storage.effectiveHard node.rd.hardState, node.rd.entries⟩ : Batch).Encodable ∧
        j.files.seq + 1 < 10 ^ 8
  | _ => True

instance (j : Journal) : (e : MemberEvent) → Decidable (Readable j e)
  | .save => inferInstanceAs (Decidable (∀ node ∈ j.node?,
      (⟨node.r.raftLog.storage.effectiveHard node.rd.hardState, node.rd.entries⟩ : Batch).Encodable ∧
        j.files.seq + 1 < 10 ^ 8))
  | .input _ | .ready | .send | .advance | .compact _ => isTrue trivial

theorem fit_run {j : Journal} (fit : j.files.Fit) (proc : Proc) : (j.run proc).files.Fit :=
  ⟨fit.encodable, fit.few, fit.count⟩

theorem fit_step {limit threshold : Nat} {j : Journal} {e : MemberEvent} (fit : j.files.Fit)
    (readable : j.Readable e) : (j.step limit threshold e).files.Fit := by
  cases here : j.proc with
  | down cause storage => simpa only [Journal.step, here] using fit
  | up node phase =>
    cases e with
    | input arm =>
      simp only [Journal.step, here]
      split
      · exact fit
      · exact fit_run fit _
    | ready =>
      simp only [Journal.step, here]
      split
      · exact fit_run fit _
      · exact fit
    | save =>
      obtain ⟨encodable, room⟩ := readable node (by rw [node?, here]; rfl)
      simp only [Journal.step, here]
      split
      · exact fit.save encodable room
      · exact fit
    | send =>
      simp only [Journal.step, here]
      split <;> exact fit
    | advance =>
      simp only [Journal.step, here]
      split
      · exact fit_run fit _
      · exact fit
    | compact index =>
      simp only [Journal.step, here]
      exact fit.compact _ _

theorem exec_fit {limit threshold : Nat} {j : Journal} {events : List MemberEvent} (fit : j.files.Fit)
    (readable : Runs.Along (step limit threshold) Readable j events) :
    (Runs.exec (step limit threshold) j events).files.Fit :=
  Runs.invariant (step limit threshold) (fun j => j.files.Fit) (fun _ _ fit ok => fit_step fit ok) fit readable

structure Writes (cfg : Config) (j : Journal) (node : Node) (phase : Phase) : Prop where
  kept : Kept node phase
  tight : RaftLog.Tight node.r.raftLog
  whole : node.r.raftLog.storage.snap.lastIncludedIndex = 0
  snapshot : j.files.snapshot = node.r.raftLog.storage.snap
  opens : phase ≠ .stopped → j.files.reopen = some node.r.raftLog.storage
  blank : Raft.Blank node.r → isEmptyHardState (some node.r.raftLog.storage.hd) = true
  prev : isEmptyHardState node.rd.hardState = true ∨ phase = .idle ∨ phase = .accepted →
    node.prevHard = none ∨ node.prevHard = some node.r.raftLog.storage.hd
  written : phase = .saved ∨ phase = .sent → isEmptyHardState node.rd.hardState = false →
    node.rd.hardState = some node.r.raftLog.storage.hd
  fresh : node.readyc = true ∨ node.advancec = true → phase = .idle ∨ phase = .accepted →
    Built node j.built
  recovered : phase = .saved → ∃ s r, Recovered cfg j.files.reopen j.built s r

/-- The head of the loop builds a `Ready` from the state it finds. -/
theorem built_top {node node' : Node} {phase : Phase} {built : Raft} (kept : Kept node phase)
    (tight : RaftLog.Tight node.r.raftLog) (top : node.loopTop = .ok node')
    (blank : Raft.Blank node.r → isEmptyHardState (some node.r.raftLog.storage.hd) = true)
    (prev : node.prevHard = none ∨ node.prevHard = some node.r.raftLog.storage.hd)
    (old : ¬ (node'.advancec = false ∧ node'.hasReady = true) →
      node.readyc = true ∨ node.advancec = true → Built node built)
    (offered : node'.readyc = true ∨ node'.advancec = true) :
    Built node' (builtAfter (.up node' phase) built) := by
  rcases Cluster.loopTop_cases top with ⟨rfl, skip⟩ | ⟨idle, due, rd, ready, rfl⟩
  · have still : ¬ (node'.advancec = false ∧ node'.hasReady = true) := by
      rcases skip with busy | quiet
      · simp [busy]
      · simp [quiet]
    have same : builtAfter (.up node' phase) built = built := by
      simp only [builtAfter]
      rw [if_neg (by simpa using still)]
    rw [same]
    exact old still offered
  · have now : builtAfter (.up { node with rd, rdArray := node.r.raftLog.unstable.array, readyc := true }
        phase) built = node.r := by
      simp only [builtAfter]
      rw [if_pos]
      simp only [idle, Bool.not_false, Bool.true_and]
      exact due
    rw [now]
    have shows := Node.ready_shows ready
    exact ⟨kept.steady.shape, tight, rfl, shows.entries, shows.hardState, blank, fun here => here⟩

def Faithful (cfg : Config) (j : Journal) : Prop :=
  ∀ node phase, j.proc = .up node phase → Writes cfg j node phase

theorem run_frame {node node' : Node} {phase phase' : Phase} {arm : Node.Event}
    (ordinary : ¬ (arm = .accept ∨ arm = .advance))
    (up : Cluster.run node phase arm = .up node' phase') :
    phase' = phase ∧ ∃ mid, mid.loopTop = .ok node' ∧ (mid = node ∨
      ∃ r', mid = node.withRaft r' ∧ Raft.Works (node.stepCalls arm) node.r r') := by
  have ran := Cluster.run_cases node phase arm
  rw [up] at ran
  cases ran with
  | ok mid _ selected top =>
    refine ⟨rfl, mid, top, ?_⟩
    cases selected with
    | idle => exact .inl rfl
    | work r' _ works => exact .inr ⟨r', rfl, works⟩
    | accept kind => exact absurd (.inl kind) ordinary
    | advance _ kind => exact absurd (.inr kind) ordinary

theorem termed_calls {node : Node} {arm : Node.Event} (ordinary : ¬ (arm = .accept ∨ arm = .advance))
    (termed : ∀ m, arm = .step m → Raft.Termed m) : ∀ call ∈ node.stepCalls arm, Raft.Termed call.2 := by
  intro call inside
  cases arm with
  | step m =>
    simp only [stepCalls] at inside
    split at inside
    · cases inside
    · rw [List.mem_singleton.mp inside]
      exact termed m rfl
  | propose data =>
    rw [List.mem_singleton.mp inside]
    exact fun kind => by simp at kind
  | campaign =>
    rw [List.mem_singleton.mp inside]
    exact fun kind => by simp at kind
  | readIndex ctx =>
    rw [List.mem_singleton.mp inside]
    exact fun kind => by simp at kind
  | tick => cases inside
  | accept => exact absurd (.inl rfl) ordinary
  | advance => exact absurd (.inr rfl) ordinary

theorem top_frame {node node' : Node} (top : node.loopTop = .ok node') :
    node'.r = node.r ∧ node'.prevHard = node.prevHard ∧ node'.advancec = node.advancec ∧
      (node.advancec = true → node' = node) := by
  rcases Cluster.loopTop_cases top with ⟨rfl, _⟩ | ⟨idle, _, rd, _, rfl⟩
  · exact ⟨rfl, rfl, rfl, fun _ => rfl⟩
  · exact ⟨rfl, rfl, rfl, fun busy => by rw [idle] at busy; cases busy⟩

/-- The state machine worked on; the storage is as it was. -/
theorem Writes.work {cfg : Config} {j : Journal} {node mid node' : Node} {phase : Phase}
    (writes : Writes cfg j node phase) (kept : Kept mid phase)
    (onward : RaftLog.Onward node.r.raftLog mid.r.raftLog)
    (blank : Raft.Blank mid.r → Raft.Blank node.r)
    (rest : mid.prevHard = node.prevHard ∧ mid.readyc = node.readyc ∧ mid.advancec = node.advancec ∧
      mid.rd.hardState = node.rd.hardState)
    (top : mid.loopTop = .ok node')
    (undisturbed : phase = .idle ∨ phase = .accepted →
      node'.advancec = false ∧ node'.hasReady = true ∨ node'.rd.entries = node.rd.entries) :
    Writes cfg (j.run (.up node' phase)) node' phase := by
  obtain ⟨prevHard, readyc, advancec, hard⟩ := rest
  obtain ⟨r, prev', adv', busy⟩ := top_frame top
  have storage : node'.r.raftLog.storage = node.r.raftLog.storage := by rw [r, onward.storage]
  have empty : Raft.Blank node'.r → isEmptyHardState (some node'.r.raftLog.storage.hd) = true := by
    rw [storage, r]
    exact fun here => writes.blank (blank here)
  -- a Ready that is out stays as it is
  have held : node.advancec = true → node' = mid := fun out => busy (advancec.trans out)
  have files : (j.run (.up node' phase)).files = j.files := by
    show { j.files with snapshot := node'.r.raftLog.storage.snap } = j.files
    rw [storage, ← writes.snapshot]
  have remembered : phase = .saved → (j.run (.up node' phase)).built = j.built := by
    intro saved
    have out : node.advancec = true := by
      rcases writes.kept.arms with ⟨idle, _⟩ | ⟨_, out, _⟩
      · rw [saved] at idle; cases idle
      · exact out
    show builtAfter (.up node' phase) j.built = j.built
    simp [builtAfter, adv', advancec, out]
  have before : node.prevHard = none ∨ node.prevHard = some node.r.raftLog.storage.hd →
      node'.prevHard = none ∨ node'.prevHard = some node'.r.raftLog.storage.hd := by
    rw [prev', prevHard, storage]
    exact fun here => here
  have out_of : phase ≠ .idle → node.advancec = true := by
    intro other
    exact (writes.kept.arms.resolve_left (fun idle => other idle.1)).2.1
  refine ⟨(kept.top top).1, (kept.top top).2.tight (onward.tight writes.tight), by rw [storage]; exact writes.whole,
    by rw [files, storage]; exact writes.snapshot, fun running => by rw [files, storage]; exact writes.opens running,
    empty, fun either => before ?_, fun saved some => ?_, fun offered early => ?_, fun saved => ?_⟩
  · rcases either with nothing | early
    · by_cases idle : phase = .idle
      · exact writes.prev (.inr (.inl idle))
      · rw [held (out_of idle), hard] at nothing
        exact writes.prev (.inl nothing)
    · exact writes.prev (.inr early)
  · have out : node.advancec = true := out_of (by rcases saved with h | h <;> rw [h] <;> decide)
    rw [held out, hard] at some ⊢
    rw [onward.storage]
    exact writes.written saved some
  · have quiet : Raft.Blank mid.r → isEmptyHardState (some mid.r.raftLog.storage.hd) = true := by
      rw [onward.storage]
      exact fun here => writes.blank (blank here)
    have stored : mid.prevHard = none ∨ mid.prevHard = some mid.r.raftLog.storage.hd := by
      rw [prevHard, onward.storage]
      exact writes.prev (.inr early)
    refine built_top kept (onward.tight writes.tight) top quiet stored (fun still offered' => ?_) offered
    have old := writes.fresh (by rw [← readyc, ← advancec]; exact offered') early
    have same : mid.rd.entries = node.rd.entries := by
      have := (undisturbed early).resolve_left still
      rcases Cluster.loopTop_cases top with ⟨rfl, _⟩ | ⟨idle, due, rd, _, rfl⟩
      · exact this
      · exact absurd ⟨idle, due⟩ still
    exact ⟨old.shape, old.tight, old.storage.trans onward.storage.symm, same.trans old.entries,
      by rw [hard, prevHard]; exact old.hard, by rw [onward.storage]; exact old.quiet,
      fun here => old.older (blank here)⟩
  · rw [files, remembered saved]
    exact writes.recovered saved

theorem Writes.input {cfg : Config} {j : Journal} {node node' : Node} {phase phase' : Phase}
    {arm : Node.Event} (writes : Writes cfg j node phase) (ordinary : ¬ (arm = .accept ∨ arm = .advance))
    (built : ∀ m, arm = .step m → Plain m ∧ Raft.Termed m)
    (undisturbed : phase = .idle ∨ phase = .accepted →
      node'.advancec = false ∧ node'.hasReady = true ∨ node'.rd.entries = node.rd.entries)
    (up : Cluster.run node phase arm = .up node' phase') :
    phase' = phase ∧ Writes cfg (j.run (.up node' phase)) node' phase := by
  have plain : ∀ call ∈ node.stepCalls arm, Plain call.2 :=
    Member.plain_calls ordinary (fun m same => (built m same).1)
  have termed : ∀ call ∈ node.stepCalls arm, Raft.Termed call.2 :=
    termed_calls ordinary (fun m same => (built m same).2)
  obtain ⟨rfl, mid, top, rfl | ⟨r', rfl, works⟩⟩ := run_frame ordinary up
  · exact ⟨rfl, writes.work writes.kept (.refl writes.kept.steady.shape) (fun here => here)
      ⟨rfl, rfl, rfl, rfl⟩ top undisturbed⟩
  · obtain ⟨onward, after⟩ := works_onward plain works writes.kept.steady.shape writes.kept.steady.after
    obtain ⟨r, _, prevHard, readyc, advancec⟩ := withRaft_rest node r'
    refine ⟨rfl, writes.work (writes.kept.onward onward after).1 (by rw [r]; exact onward)
      (by rw [r]; exact works.blank termed) ⟨prevHard, readyc, advancec, (withRaft_rd node r').2⟩ top undisturbed⟩

theorem Writes.accept {cfg : Config} {j : Journal} {node node' : Node} {phase' : Phase}
    (writes : Writes cfg j node .idle) (offered : node.readyc = true)
    (up : Cluster.run node .accepted .accept = .up node' phase') :
    phase' = .accepted ∧ Writes cfg (j.run (.up node' phase')) node' phase' := by
  have ran := Cluster.run_cases node .accepted .accept
  rw [up] at ran
  cases ran with
  | ok mid _ selected top =>
    obtain rfl := selected.of_accept offered
    obtain rfl := (top_frame top).2.2.2 rfl
    obtain ⟨kept, grows⟩ := writes.kept.accept offered
    have files : (j.run (.up node.accept .accepted)).files = j.files := by
      show { j.files with snapshot := node.r.raftLog.storage.snap } = j.files
      rw [← writes.snapshot]
    have old := writes.fresh (.inl offered) (.inl rfl)
    refine ⟨rfl, kept, grows.tight writes.tight, writes.whole, by rw [files]; exact writes.snapshot,
      fun _ => by rw [files]; exact writes.opens (by simp), writes.blank,
      fun _ => writes.prev (.inr (.inl rfl)), by simp, fun _ _ => ?_, by simp⟩
    have same : (j.run (.up node.accept .accepted)).built = j.built := by
      show builtAfter (.up node.accept .accepted) j.built = j.built
      simp [builtAfter, Node.accept]
    rw [same]
    exact ⟨old.shape, old.tight, old.storage, old.entries, old.hard, old.quiet, old.older⟩

theorem Writes.save {cfg : Config} {j : Journal} {node node' : Node} {phase' : Phase} {limit : Nat}
    (valid : Raft.validate cfg = true) (writes : Writes cfg j node .accepted)
    (up : Member.save node = .up node' phase') :
    Writes cfg { j with
      proc := .up node' phase'
      files := j.files.save limit node.r.raftLog.storage node.rd.entries node.rd.hardState } node' phase' := by
  obtain ⟨_, out, _⟩ := writes.kept.arms.resolve_left (by simp)
  have prev := writes.prev (.inr (.inr rfl))
  have fresh := writes.fresh (.inr out) (.inr rfl)
  obtain ⟨kept, _, grows, snap⟩ := Member.save_up writes.kept up
  -- what both outcomes have in common
  obtain ⟨storage, err, done, rfl, phased⟩ : ∃ storage err,
      node.r.raftLog.storage.save node.rd.entries node.rd.hardState = .ok (storage, err) ∧
      node' = Cluster.withStorage node storage ∧
      (phase' = .saved ∧ err = none ∨ phase' = .stopped) := by
    unfold Member.save at up
    split at up
    · cases up
    · rename_i storage done
      cases up
      exact ⟨storage, none, done, rfl, .inl ⟨rfl, rfl⟩⟩
    · rename_i storage err done
      cases up
      exact ⟨storage, some err, done, rfl, .inr rfl⟩
  have hd : storage.hd = j.built.hardState := (MemStorage.save_hd done).trans (fresh.effectiveHard prev)
  have late : ¬ (phase' = .idle ∨ phase' = .accepted) := by
    rcases phased with ⟨rfl, _⟩ | rfl <;> simp
  refine ⟨kept, grows.tight writes.tight, ?_, ?_, fun running => ?_, fun here => ?_, fun either => ?_,
    fun _ full => ?_, fun _ early => absurd early late, fun saved => ?_⟩
  · rw [snap]; exact writes.whole
  · show (j.files.save limit _ _ _).snapshot = storage.snap
    rw [Files.save_snapshot, writes.snapshot, ← snap]
    rfl
  · obtain ⟨rfl, rfl⟩ := phased.resolve_right running
    exact Files.reopen_save (writes.opens (by simp)) writes.whole done
  · show isEmptyHardState (some storage.hd) = true
    rw [hd]
    exact fresh.older here
  · have nothing : isEmptyHardState node.rd.hardState = true := either.resolve_right late
    have same : storage.hd = node.r.raftLog.storage.hd := by
      rw [MemStorage.save_hd done, MemStorage.effectiveHard, if_pos nothing]
    show node.prevHard = none ∨ node.prevHard = some storage.hd
    rw [same]
    exact prev
  · show node.rd.hardState = some storage.hd
    have full : isEmptyHardState node.rd.hardState = false := full
    rw [MemStorage.save_hd done, MemStorage.effectiveHard, full, if_neg (by simp)]
    cases here : node.rd.hardState with
    | none => rw [here] at full; cases full
    | some hs => rfl
  · obtain ⟨_, rfl⟩ := phased.resolve_right (by rw [saved]; simp)
    exact fresh.recovered valid prev writes.whole
      (Files.reopen_save (writes.opens (by simp)) writes.whole done) done

theorem Writes.advance {cfg : Config} {j : Journal} {node node' : Node} {phase' : Phase}
    (writes : Writes cfg j node .sent) (up : Cluster.run node .idle .advance = .up node' phase') :
    phase' = .idle ∧ Writes cfg (j.run (.up node' phase')) node' phase' := by
  obtain ⟨_, out, readyc⟩ := writes.kept.arms.resolve_left (by simp)
  have ran := Cluster.run_cases node .idle .advance
  rw [up] at ran
  cases ran with
  | ok mid _ selected top =>
    obtain ⟨works, done⟩ := selected.of_advance out
    obtain ⟨kept, grows⟩ := writes.kept.advance works done
    have storage := writes.kept.advance_storage works
    have termed : ∀ call ∈ node.stepCalls .advance, Raft.Termed call.2 := by
      intro call inside
      simp only [stepCalls, out, if_true] at inside
      have response := writes.kept.steady.steps _ (callsFrom_mem inside)
      intro kind
      rcases kind with kind | kind | kind <;> rw [kind] at response <;> cases response
    have older : Raft.Blank mid.r → Raft.Blank node.r := by
      intro here
      have := works.blank termed here
      rw [Raft.blank_iff] at this ⊢
      exact ⟨this.1, this.2.1, by
        rw [← this.2.2]; exact (advanceLog_committed node.r.raftLog node.rd).symm⟩
    obtain ⟨r', _, shut⟩ := Outcome.bind_eq_ok.mp done
    cases shut
    obtain ⟨r, prev', adv', _⟩ := top_frame top
    have same : node'.r.raftLog.storage = node.r.raftLog.storage := by rw [r]; exact storage
    have stored : (if isEmptyHardState node.rd.hardState then node.prevHard else node.rd.hardState) = none ∨
        (if isEmptyHardState node.rd.hardState then node.prevHard else node.rd.hardState) =
          some node.r.raftLog.storage.hd := by
      split
      · rename_i nothing
        exact writes.prev (.inl nothing)
      · rename_i some
        exact .inr (writes.written (.inr rfl) (by simpa using some))
    have files : (j.run (.up node' .idle)).files = j.files := by
      show { j.files with snapshot := node'.r.raftLog.storage.snap } = j.files
      rw [same, ← writes.snapshot]
    have tight := grows.tight writes.tight
    refine ⟨rfl, (kept.top top).1, (kept.top top).2.tight tight, by rw [same]; exact writes.whole,
      by rw [files, same]; exact writes.snapshot, fun _ => by rw [files, same]; exact writes.opens (by simp),
      fun here => ?_, fun _ => ?_, by simp, fun offered early => ?_, by simp⟩
    · rw [same]
      exact writes.blank (older (by rw [← r]; exact here))
    · rw [prev', same]
      exact stored
    · refine built_top kept tight top (fun here => ?_) ?_ (fun _ offered' => ?_) offered
      · rw [show _ = node.r.raftLog.storage from storage]
        exact writes.blank (older here)
      · rw [show _ = node.r.raftLog.storage from storage]
        exact stored
      · simp [readyc] at offered'

theorem Faithful.step {cfg : Config} {limit threshold : Nat} {j : Journal} {e : MemberEvent}
    (valid : Raft.validate cfg = true) (faithful : Faithful cfg j)
    (undisturbed : Undisturbed limit threshold j e) : Faithful cfg (j.step limit threshold e) := by
  intro node' phase' up
  cases here : j.proc with
  | down cause storage =>
    have same : j.step limit threshold e = j := by rw [Journal.step, here]
    rw [same] at up
    rw [here] at up
    cases up
  | up node phase =>
    have writes := faithful node phase here
    have found' : (j.step limit threshold e).node? = some node' := by rw [node?, up]
    cases e with
    | input arm =>
      have calm := fun early => undisturbed.2 node (unsaved?_early here early) node' found'
      simp only [Journal.step, here] at up ⊢
      split
      · rename_i skip
        rw [if_pos skip] at up
        exact faithful node' phase' up
      · rename_i ordinary
        rw [if_neg ordinary] at up
        have up : Cluster.run node phase arm = .up node' phase' := up
        obtain ⟨rfl, kept⟩ := writes.input ordinary undisturbed.1.of_step calm up
        rw [up]
        exact kept
    | ready =>
      simp only [Journal.step, here] at up ⊢
      split
      · rename_i offered
        rw [if_pos offered] at up
        obtain ⟨rfl, offered⟩ := offered
        have up : Cluster.run node .accepted .accept = .up node' phase' := up
        rw [up]
        exact (writes.accept offered up).2
      · rename_i skip
        rw [if_neg skip] at up
        exact faithful node' phase' up
    | save =>
      simp only [Journal.step, here] at up ⊢
      split
      · rename_i accepted
        rw [if_pos accepted] at up
        subst accepted
        have up : Member.save node = .up node' phase' := up
        rw [up]
        exact writes.save valid up
      · rename_i skip
        rw [if_neg skip] at up
        exact faithful node' phase' up
    | send =>
      simp only [Journal.step, here] at up ⊢
      split
      · rename_i saved
        rw [if_pos saved] at up
        subst saved
        cases up
        exact ⟨writes.kept.send, writes.tight, writes.whole, writes.snapshot, fun _ => writes.opens (by simp),
          writes.blank, fun either => writes.prev (either.imp_right (by simp)),
          fun _ => writes.written (.inl rfl), by simp, by simp⟩
      · rename_i skip
        rw [if_neg skip] at up
        exact faithful node' phase' up
    | advance =>
      simp only [Journal.step, here] at up ⊢
      split
      · rename_i sent
        rw [if_pos sent] at up
        subst sent
        have up : Cluster.run node .idle .advance = .up node' phase' := up
        rw [up]
        exact (writes.advance up).2
      · rename_i skip
        rw [if_neg skip] at up
        exact faithful node' phase' up
    | compact index => exact undisturbed.elim

theorem start_faithful {cfg : Config} {files : Files} (sound : cfg.storage.Sound)
    (whole : cfg.storage.snap.lastIncludedIndex = 0) (opened : files.reopen = some cfg.storage) :
    Faithful cfg (start cfg files) := by
  intro node phase up
  obtain ⟨r, made, rfl, kept, grows, top⟩ := Member.start_kept sound up
  obtain ⟨shape, tight, _⟩ := Raft.newRaft_shape sound made
  obtain ⟨same, prev, _, _⟩ := top_frame top
  have storage : r.raftLog.storage = cfg.storage := (Raft.newRaft_fresh made).storage
  have held : node.r.raftLog.storage = cfg.storage := by rw [same]; exact storage
  have blank : Raft.Blank r → isEmptyHardState (some r.raftLog.storage.hd) = true := by
    intro here
    obtain ⟨log, _, _⟩ := Raft.newRaft_log made
    have born := Raft.newRaft_fresh made
    rw [storage]
    by_contra full
    have here := Raft.blank_iff.mp here
    rw [born.term, born.votedFor, log] at here
    simp only [if_neg full] at here
    simp [isEmptyHardState, here] at full
  refine ⟨kept, by rw [same]; exact tight, by rw [held]; exact whole, ?_, fun _ => by rw [held]; exact opened,
    by rw [same]; exact blank, fun _ => .inl (by rw [prev]), by simp, fun offered _ => ?_, by simp⟩
  · rw [held]
    exact (Files.replay_snap opened).symm
  · show Built node (builtAfter (Member.start cfg).proc (Raft.blank cfg))
    rw [show (Member.start cfg).proc = .up node .idle from up]
    exact built_top (Member.start_node_kept sound made) tight top blank (.inl rfl)
      (fun _ none => by simp at none) offered

def reopened (j : Journal) : Option MemStorage := openDirectory j.files.dir j.files.snapshot

/-- Once a `Ready` is saved, the directory opens to the state it was built from. -/
theorem saved_ready_recovered (limit threshold : Nat) (cfg : Config) (files : Files)
    (valid : Raft.validate cfg = true) (sound : cfg.storage.Sound)
    (whole : cfg.storage.snap.lastIncludedIndex = 0) (fit : files.Fit)
    (opened : openDirectory files.dir files.snapshot = some cfg.storage) (events : List MemberEvent)
    (readable : Runs.Along (step limit threshold) Readable (start cfg files) events)
    (undisturbed : Runs.Along (step limit threshold) (Undisturbed limit threshold) (start cfg files) events) :
    ∀ node, (Runs.exec (step limit threshold) (start cfg files) events).proc = .up node .saved →
      ∃ s r, Recovered cfg (Runs.exec (step limit threshold) (start cfg files) events).reopened
        (Runs.exec (step limit threshold) (start cfg files) events).built s r := by
  intro node up
  have faithful : Faithful cfg (Runs.exec (step limit threshold) (start cfg files) events) :=
    Runs.invariant (step limit threshold) (Faithful cfg) (fun _ _ good ok => good.step valid ok)
      (start_faithful sound whole (fit.opens.symm.trans opened)) undisturbed
  rw [reopened, (exec_fit (j := start cfg files) fit readable).opens]
  exact (faithful node .saved up).recovered rfl

def roomyConfig : Config := { Member.followerConfig with rng := fun _ => 4 }

def twoEntries : MemberEvent :=
  .input (.step {
    type := .msgApp, fromId := 2, toId := 1, term := 1, entries := [⟨1, 1, []⟩, ⟨2, 1, []⟩] })

def replaceSecond : MemberEvent :=
  .input (.step {
    type := .msgApp, fromId := 3, toId := 1, term := 2, index := 1, logTerm := 1,
    entries := [⟨2, 2, []⟩] })

theorem twoEntries_recovered : ∃ node,
    (Runs.exec (step 1 1) (start roomyConfig {}) [twoEntries, .ready, .save]).proc = .up node .saved ∧
      ∃ s r, Recovered roomyConfig
        (Runs.exec (step 1 1) (start roomyConfig {}) [twoEntries, .ready, .save]).reopened
        (Runs.exec (step 1 1) (start roomyConfig {}) [twoEntries, .ready, .save]).built s r :=
  ⟨_, rfl, saved_ready_recovered 1 1 roomyConfig {} (by decide) sound_empty rfl Files.fit_empty
    (Files.fit_empty.opens.trans rfl) [twoEntries, .ready, .save] (by decide +kernel) (by decide +kernel) _ rfl⟩

/-- The entry that arrives after `Ready` is saved in place of the one the `Ready` was
built from. -/
theorem replaced_before_save :
    (Runs.exec (step 1 1) (start roomyConfig {}) [twoEntries, .ready, replaceSecond, .save]).reopened.map
        MemStorage.entries = some [⟨1, 1, []⟩, ⟨2, 2, []⟩] ∧
      (Runs.exec (step 1 1) (start roomyConfig {})
        [twoEntries, .ready, replaceSecond, .save]).built.raftLog.entryAt 2 = some ⟨2, 1, []⟩ := by
  have fit : (Runs.exec (step 1 1) (start roomyConfig {}) [twoEntries, .ready, replaceSecond, .save]).files.Fit :=
    exec_fit Files.fit_empty (by decide +kernel)
  rw [reopened, fit.opens]
  decide +kernel

end Journal

end Kvgo

import Kvgo.Raft.Restart
import Kvgo.Raft.Replay

/-! A process that may stop and be started again at any moment. -/

namespace Kvgo

inductive LifeEvent where
  | proceed (e : MemberEvent)
  /-- The process stops, and a new one is started on its directory. -/
  | restart
  deriving DecidableEq

namespace Journal

open Node

def restart (cfg : Config) (j : Journal) : Journal :=
  match j.files.reopen with
  | none => j
  | some s => start { cfg with storage := s, applied := s.snap.lastIncludedIndex } j.files

end Journal

structure Life where
  journal : Journal
  /-- A snapshot was installed, and no hard state has been written since. -/
  exposed : Bool := false

namespace Journal

def writesHard (j : Journal) : Bool :=
  match j.proc with
  | .up node .accepted => !isEmptyHardState node.rd.hardState
  | _ => false

end Journal

namespace Life

open Node Journal

def exposedBy (limit threshold : Nat) (life : Life) : MemberEvent → Bool
  | .input (.step m) => life.exposed || decide (m.type = .msgSnap ∧
      (life.journal.step limit threshold (.input (.step m))).proc.storage.snap ≠ life.journal.proc.storage.snap)
  | .save => life.exposed && !life.journal.writesHard
  | _ => life.exposed

def step (limit threshold : Nat) (cfg : Config) (life : Life) : LifeEvent → Life
  | .proceed e => ⟨life.journal.step limit threshold e, life.exposedBy limit threshold e⟩
  | .restart => ⟨life.journal.restart cfg, false⟩

def start (cfg : Config) (files : Files) : Life := ⟨Journal.start cfg files, false⟩

end Life

namespace Journal

open Node

def member (j : Journal) : Member := { proc := j.proc }

/-- The `Save` that is due returns nil. -/
def saves (node : Node) : Bool :=
  match node.r.raftLog.storage.save node.rd.entries node.rd.hardState with
  | .ok (_, none) => true
  | _ => false

end Journal

/-- The process does not stop between a snapshot and the hard state that goes with it. A
compaction index was applied, and so is covered by the hard state on disk. A restart finds no
entry that the process had replaced. -/
def Life.Covered (life : Life) : LifeEvent → Prop
  | .proceed e => life.journal.member.Careful e ∧ life.journal.Readable e ∧
      match e with
      | .save => ∀ node ∈ life.journal.node?, Journal.saves node = true
      | .compact index => index ≤ life.journal.proc.storage.hd.committedIndex
      | _ => True
  | .restart => life.exposed = false ∧
      ∀ s ∈ life.journal.files.reopen, s.lastIndex = life.journal.proc.storage.lastIndex

instance (life : Life) : (e : LifeEvent) → Decidable (life.Covered e)
  | .proceed .save => inferInstanceAs (Decidable (life.journal.member.Careful .save ∧
      life.journal.Readable .save ∧ ∀ node ∈ life.journal.node?, Journal.saves node = true))
  | .proceed (.compact index) => inferInstanceAs (Decidable (life.journal.member.Careful (.compact index) ∧
      life.journal.Readable (.compact index) ∧ index ≤ life.journal.proc.storage.hd.committedIndex))
  | .proceed (.input arm) => inferInstanceAs (Decidable (life.journal.member.Careful (.input arm) ∧
      life.journal.Readable (.input arm) ∧ True))
  | .proceed .ready => inferInstanceAs (Decidable (life.journal.member.Careful .ready ∧
      life.journal.Readable .ready ∧ True))
  | .proceed .send => inferInstanceAs (Decidable (life.journal.member.Careful .send ∧
      life.journal.Readable .send ∧ True))
  | .proceed .advance => inferInstanceAs (Decidable (life.journal.member.Careful .advance ∧
      life.journal.Readable .advance ∧ True))
  | .restart => inferInstanceAs (Decidable (life.exposed = false ∧
      ∀ s ∈ life.journal.files.reopen, s.lastIndex = life.journal.proc.storage.lastIndex))

namespace Journal

open Node

theorem step_proc (limit threshold : Nat) (j : Journal) (e : MemberEvent) :
    (j.step limit threshold e).proc = (j.member.step threshold e).proc := by
  cases here : j.proc with
  | down cause storage => simp only [Journal.step, Member.step, member, here]
  | up node phase =>
    cases e <;> simp only [Journal.step, Member.step, member, here] <;>
      split <;> simp_all [Journal.run]

theorem select_snap_storage {node mid : Node} {m : Message} {err : Option StepError} (kind : m.type = .msgSnap)
    (ok : node.select (.step m) = .ok (mid, err)) : mid.r.raftLog.storage = node.r.raftLog.storage ∨
      ∃ snap, node.r.raftLog.storage.applySnapshot snap = (mid.r.raftLog.storage, none) := by
  simp only [select, kind, isLocalMsg] at ok
  obtain ⟨r', stepped, rfl⟩ := handle_eq_ok ok
  rw [(withRaft_rest node r').1]
  obtain ⟨_, same | ⟨_, snap, storage, _, applied, log⟩⟩ := Raft.step_snap kind stepped
  · exact .inl (by rw [same])
  · refine .inr ⟨snap, ?_⟩
    rw [log]
    exact applied

/-- Only an arm with a snapshot message makes a call with one. -/
theorem stepCalls_not_snap {node : Node} {arm : Node.Event} (other : ¬ ∃ m, arm = .step m ∧ m.type = .msgSnap)
    (steps : ∀ msg ∈ node.stepsOnAdvance, afterAppend msg.type = true) :
    ∀ call ∈ node.stepCalls arm, call.2.type ≠ .msgSnap := by
  intro call inside snap
  cases arm with
  | step m =>
    simp only [stepCalls] at inside
    split at inside
    · cases inside
    · rw [List.mem_singleton.mp inside] at snap
      exact other ⟨m, rfl, snap⟩
  | propose data => rw [List.mem_singleton.mp inside] at snap; cases snap
  | campaign => rw [List.mem_singleton.mp inside] at snap; cases snap
  | readIndex ctx => rw [List.mem_singleton.mp inside] at snap; cases snap
  | tick => cases inside
  | accept => cases inside
  | advance =>
    simp only [stepCalls] at inside
    split at inside
    · have response := steps _ (callsFrom_mem inside)
      rw [snap] at response
      cases response
    · cases inside

/-- An arm without a snapshot message leaves the storage alone. -/
theorem selected_storage {node mid : Node} {arm : Node.Event}
    (calls : ∀ call ∈ node.stepCalls arm, call.2.type ≠ .msgSnap) (selected : node.Selected arm mid) :
    mid.r.raftLog.storage = node.r.raftLog.storage := by
  have still : ∀ r r' : Raft, Raft.Works (node.stepCalls arm) r r' →
      r.raftLog.storage = node.r.raftLog.storage → r'.raftLog.storage = node.r.raftLog.storage := by
    intro r r' works same
    refine works.keeps (P := fun r => r.raftLog.storage = node.r.raftLog.storage) ?_ ?_ same
    · intro s s' same soft
      rw [soft.raftLog]
      exact same
    · intro s0 m s s' call _ same act
      have plain : m.type ≠ .msgSnap := call.elim (fun inside => calls _ inside) (fun timer => (plain_timer timer).2)
      exact (act.storage.resolve_right (fun snap => plain snap.1)).trans same
  cases selected with
  | idle => rfl
  | work r' _ works =>
    rw [(withRaft_rest node r').1]
    exact still _ _ works rfl
  | accept => rfl
  | advance _ _ _ works _ => exact still _ _ works (Raft.advanceLog_storage _ _)

/-- What an arm of the loop does to the storage. -/
theorem run_storage (node : Node) (phase : Phase) (arm : Node.Event)
    (steps : ∀ msg ∈ node.stepsOnAdvance, afterAppend msg.type = true) :
    (Cluster.run node phase arm).storage = node.r.raftLog.storage ∨
      (∃ m, arm = .step m ∧ m.type = .msgSnap) ∧ ∃ snap, node.r.raftLog.storage.applySnapshot snap =
        ((Cluster.run node phase arm).storage, none) := by
  by_cases kind : ∃ m, arm = .step m ∧ m.type = .msgSnap
  · have kind' := kind
    obtain ⟨m, rfl, kind⟩ := kind
    unfold Cluster.run
    cases selected : node.select (.step m) with
    | error p => exact .inl rfl
    | ok result =>
      have mid := (select_snap_storage kind selected).imp_right (And.intro kind')
      cases top : result.1.loopTop with
      | error p => simpa only [top, Proc.storage] using mid
      | ok last => simpa only [top, Proc.storage, (top_frame top).1] using mid
  · have calls := stepCalls_not_snap kind steps
    refine .inl ?_
    have ran := Cluster.run_cases node phase arm
    revert ran
    generalize Cluster.run node phase arm = proc
    intro ran
    cases ran with
    | panicked p _ => rfl
    | panickedAfter mid p selected _ => exact selected_storage calls selected
    | ok mid node' selected top =>
      exact (congrArg (·.raftLog.storage) (top_frame top).1).trans (selected_storage calls selected)

/-- The files are those of the storage, which holds all that its hard state calls committed. -/
structure Held (files : Files) (storage : MemStorage) : Prop where
  replays : files.Replays storage
  reached : storage.hd.committedIndex ≤ storage.lastIndex

def Covers (storage : MemStorage) : Prop :=
  isEmptyHardState (some storage.hd) = true ∨ storage.snap.lastIncludedIndex ≤ storage.hd.committedIndex

theorem Held.arm {files : Files} {s s' : MemStorage} (held : Held files s)
    (ran : s' = s ∨ ∃ snap, s.applySnapshot snap = (s', none)) :
    Held (files.persistSnapshotMeta s'.snap) s' ∧ (s'.snap = s.snap → Covers s → Covers s') := by
  rcases ran with rfl | ⟨snap, applied⟩
  · refine ⟨?_, fun _ covers => covers⟩
    rw [← held.replays.snapshot]
    exact held
  · obtain ⟨first, stored⟩ := held.replays.stored
    obtain ⟨-, hd, -, -⟩ := MemStorage.applySnapshot_spec stored applied
    have last := MemStorage.applySnapshot_last stored applied
    refine ⟨⟨held.replays.applySnapshot applied, ?_⟩, fun same covers => ?_⟩
    · rw [hd, last]
      exact held.reached.trans (Nat.le_max_left _ _)
    · rwa [Covers, hd, same]

theorem Held.save {files : Files} {node : Node} (limit : Nat) (kept : Kept node .accepted)
    (held : Held files node.r.raftLog.storage) (saved : saves node = true) :
    Held (files.save limit node.r.raftLog.storage node.rd.entries node.rd.hardState) (Member.save node).storage ∧
      (isEmptyHardState node.rd.hardState = false ∨ Covers node.r.raftLog.storage →
        Covers (Member.save node).storage) := by
  obtain ⟨_, out, _⟩ := kept.arms.resolve_left (by simp)
  obtain ⟨o, offer⟩ := kept.offer (.inr out)
  obtain ⟨storage, done⟩ : ∃ storage, node.r.raftLog.storage.save node.rd.entries node.rd.hardState =
      .ok (storage, none) := by
    unfold saves at saved
    split at saved
    · rename_i storage done
      exact ⟨storage, done⟩
    · cases saved
  have now : Member.save node = .up (Cluster.withStorage node storage) .saved := by rw [Member.save, done]
  rw [now]
  refine ⟨⟨held.replays.save offer.indexed offer.positive (fun some => (offer.unsaved (.inr rfl) some).1) done,
    (Member.save_up kept now).1.reached (by simp)⟩, fun either => ?_⟩
  show Covers storage
  rw [Covers, MemStorage.save_hd done, MemStorage.save_snap done]
  rcases MemStorage.effectiveHard_cases node.r.raftLog.storage node.rd.hardState with ⟨hs, carried, same⟩ | same
  · rw [same]
    exact .inr (offer.vouched (.inr rfl) hs carried).2.1
  · rw [same]
    refine either.elim (fun full => ?_) id
    cases carried : node.rd.hardState with
    | none => rw [carried] at full; cases full
    | some hs =>
      rw [MemStorage.effectiveHard, full, if_neg (by simp), carried] at same
      rw [← same]
      exact .inr (offer.vouched (.inr rfl) hs carried).2.1

theorem Held.compact {files : Files} {node : Node} (phase : Phase) (threshold : Nat) {index : Nat}
    (held : Held files node.r.raftLog.storage) (applied : index ≤ node.r.raftLog.storage.hd.committedIndex) :
    Held (files.compact node.r.raftLog.storage (Member.compact threshold node phase index).storage)
        (Member.compact threshold node phase index).storage ∧
      (Covers node.r.raftLog.storage → Covers (Member.compact threshold node phase index).storage) := by
  unfold Member.compact
  cases done : node.r.raftLog.storage.maybeCompact threshold index with
  | error p =>
    refine ⟨?_, id⟩
    show Held (files.compact node.r.raftLog.storage node.r.raftLog.storage) node.r.raftLog.storage
    rw [Files.compact, if_pos rfl]
    exact held
  | ok result =>
    obtain ⟨storage, err⟩ := result
    obtain ⟨first, stored⟩ := held.replays.stored
    have replays := (held.replays.compact done).1
    rcases stored.maybeCompact done with rfl | compacted
    · exact ⟨⟨replays, held.reached⟩, id⟩
    · refine ⟨⟨replays, ?_⟩, fun _ => .inr ?_⟩
      · show storage.hd.committedIndex ≤ storage.lastIndex
        rw [compacted.hd, compacted.last]
        exact held.reached
      · show storage.snap.lastIncludedIndex ≤ storage.hd.committedIndex
        rw [compacted.snap, compacted.hd]
        exact applied

theorem start_storage (cfg : Config) : (Member.start cfg).proc.storage = cfg.storage := by
  unfold Member.start
  dsimp only
  split
  · rfl
  · rename_i node made
    obtain ⟨r, built, same⟩ := Outcome.bind_eq_ok.mp made
    cases same
    split
    · rfl
    · rename_i node' top
      show node'.r.raftLog.storage = _
      rw [(top_frame top).1]
      exact (Raft.newRaft_fresh built).storage

end Journal

namespace Life

open Node Journal

/-- A directory that opens, and that a process can be started on unless it is exposed. -/
structure Sturdy (life : Life) : Prop where
  member : life.journal.member.Fit
  fit : life.journal.files.Fit
  held : Held life.journal.files life.journal.proc.storage
  covers : life.exposed = false → Journal.Covers life.journal.proc.storage

theorem Sturdy.backs {life : Life} (sturdy : Sturdy life) (safe : life.exposed = false) :
    life.journal.files.Backs life.journal.proc.storage :=
  ⟨sturdy.held.replays, sturdy.covers safe⟩

theorem Sturdy.sound {life : Life} (sturdy : Sturdy life) (safe : life.exposed = false) {s : MemStorage}
    (opened : life.journal.files.reopen = some s) : s.Sound := by
  have backs := sturdy.backs safe
  obtain ⟨s', again, stored, snap, hd, far, _⟩ := backs.opens
  obtain rfl : s = s' := by rw [opened] at again; exact Option.some_inj.mp again
  have hd := backs.opened_hard hd
  refine ⟨stored, ?_, ?_⟩
  · rcases hd with hd | hd
    · rw [hd]
      exact sturdy.held.reached.trans far
    · rw [hd]
      exact Nat.zero_le _
  · rw [snap]
    rcases hd with hd | hd
    · rw [hd]
      exact backs.covered
    · rw [hd]
      exact .inl rfl

/-- The storage and its files after an event, and whether a boundary is now exposed. -/
theorem Sturdy.proceed (limit threshold : Nat) {life : Life} {e : MemberEvent} (sturdy : Sturdy life)
    (covered : life.Covered (.proceed e)) :
    Held (life.journal.step limit threshold e).files (life.journal.step limit threshold e).proc.storage ∧
      (life.exposedBy limit threshold e = false → Journal.Covers (life.journal.step limit threshold e).proc.storage) := by
  obtain ⟨-, -, covered⟩ := covered
  have held := sturdy.held
  have covers := sturdy.covers
  cases here : life.journal.proc with
  | down cause storage =>
    have same : life.journal.step limit threshold e = life.journal := by rw [Journal.step, here]
    rw [same]
    refine ⟨held, fun safe => ?_⟩
    cases e with
    | save =>
      simp only [exposedBy, writesHard, here, Bool.not_false, Bool.and_true] at safe
      exact covers safe
    | input arm =>
      cases arm with
      | step m => exact covers (Bool.or_eq_false_iff.mp safe).1
      | propose _ | campaign | readIndex _ | tick | accept | advance => exact covers safe
    | ready | send | advance | compact _ => exact covers safe
  | up node phase =>
    have kept : Kept node phase := by
      have fit := sturdy.member
      rwa [Member.Fit, Journal.member, here] at fit
    have storage : life.journal.proc.storage = node.r.raftLog.storage := by rw [here]; rfl
    -- an arm of the loop moves the boundary only for a snapshot
    have arm : ∀ phase' arm, life.journal.step limit threshold e = life.journal.run (Cluster.run node phase' arm) →
        Held (life.journal.step limit threshold e).files (life.journal.step limit threshold e).proc.storage ∧
          ((life.journal.step limit threshold e).proc.storage.snap = life.journal.proc.storage.snap →
            Journal.Covers life.journal.proc.storage →
              Journal.Covers (life.journal.step limit threshold e).proc.storage) ∧
          ((¬ ∃ m, arm = .step m ∧ m.type = .msgSnap) →
            (life.journal.step limit threshold e).proc.storage = life.journal.proc.storage) := by
      intro phase' arm same
      have ran := run_storage node phase' arm kept.steady.steps
      rw [← storage] at ran
      rw [same]
      obtain ⟨next, still⟩ := held.arm (ran.imp_right And.right)
      exact ⟨next, still, fun other => ran.resolve_right fun snap => other snap.1⟩
    cases e with
    | input arm' =>
      by_cases skip : arm' = .accept ∨ arm' = .advance
      · rw [show life.journal.step limit threshold (.input arm') = life.journal by
          simp only [Journal.step, here]; rw [if_pos skip]]
        exact ⟨held, fun safe => covers (by rcases skip with rfl | rfl <;> exact safe)⟩
      · obtain ⟨next, still, calm⟩ := arm phase arm' (by simp only [Journal.step, here]; rw [if_neg skip])
        refine ⟨next, fun safe => ?_⟩
        by_cases snap : ∃ m, arm' = .step m ∧ m.type = .msgSnap
        · obtain ⟨m, rfl, kind⟩ := snap
          obtain ⟨before, same⟩ := Bool.or_eq_false_iff.mp safe
          refine still ?_ (covers before)
          by_contra moved
          exact of_decide_eq_false same ⟨kind, moved⟩
        · rw [calm snap]
          refine covers ?_
          cases arm' with
          | step m => exact (Bool.or_eq_false_iff.mp safe).1
          | propose _ | campaign | readIndex _ | tick | accept | advance => exact safe
    | ready =>
      by_cases offered : phase = .idle ∧ node.readyc = true
      · obtain ⟨next, -, calm⟩ := arm .accepted .accept (by simp only [Journal.step, here]; rw [if_pos offered])
        exact ⟨next, fun safe => by rw [calm (by simp)]; exact covers safe⟩
      · rw [show life.journal.step limit threshold .ready = life.journal by
          simp only [Journal.step, here]; rw [if_neg offered]]
        exact ⟨held, covers⟩
    | save =>
      by_cases accepted : phase = .accepted
      · subst accepted
        have saved := covered node (by rw [node?, here]; rfl)
        rw [storage] at held covers
        obtain ⟨next, hard⟩ := held.save limit kept saved
        simp only [Journal.step, here, if_true]
        refine ⟨next, fun safe => hard ?_⟩
        simp only [exposedBy, writesHard, here, Bool.not_not, Bool.and_eq_false_iff] at safe
        exact safe.symm.imp_right covers
      · rw [show life.journal.step limit threshold .save = life.journal by
          simp only [Journal.step, here]; rw [if_neg accepted]]
        refine ⟨held, fun safe => covers ?_⟩
        have quiet : life.journal.writesHard = false := by
          rw [writesHard, here]
          cases phase <;> simp at accepted <;> rfl
        simpa only [exposedBy, quiet, Bool.not_false, Bool.and_true] using safe
    | send =>
      rw [storage] at held covers
      simp only [Journal.step, here]
      split
      · exact ⟨held, covers⟩
      · rw [here]
        exact ⟨held, covers⟩
    | advance =>
      by_cases sent : phase = .sent
      · obtain ⟨next, -, calm⟩ := arm .idle .advance (by simp only [Journal.step, here]; rw [if_pos sent])
        exact ⟨next, fun safe => by rw [calm (by simp)]; exact covers safe⟩
      · rw [show life.journal.step limit threshold .advance = life.journal by
          simp only [Journal.step, here]; rw [if_neg sent]]
        exact ⟨held, covers⟩
    | compact index =>
      rw [storage] at held covers
      have applied : index ≤ node.r.raftLog.storage.hd.committedIndex := by rw [← storage]; exact covered
      obtain ⟨next, still⟩ := held.compact phase threshold applied
      simp only [Journal.step, here]
      exact ⟨next, fun safe => still (covers safe)⟩

theorem start_sturdy {cfg : Config} {files : Files} (sound : cfg.storage.Sound) (fit : files.Fit)
    (backs : files.Backs cfg.storage) : Sturdy (start cfg files) := by
  have storage : (start cfg files).journal.proc.storage = cfg.storage := start_storage cfg
  refine ⟨Member.start_fit sound, fit, ⟨?_, ?_⟩, fun _ => ?_⟩
  · rw [storage]
    exact backs.toReplays
  · rw [storage]
    exact sound.committed
  · rw [storage]
    exact backs.covered

theorem Sturdy.step {limit threshold : Nat} {cfg : Config} {life : Life} {e : LifeEvent} (sturdy : Sturdy life)
    (covered : life.Covered e) : Sturdy (life.step limit threshold cfg e) := by
  cases e with
  | proceed e =>
    obtain ⟨held, covers⟩ := sturdy.proceed limit threshold covered
    have member : (Member.step threshold life.journal.member e).Fit := (sturdy.member.step covered.1).1
    rw [Member.Fit, ← step_proc limit] at member
    exact ⟨member, fit_step sturdy.fit covered.2.1, held, covers⟩
  | restart =>
    obtain ⟨safe, covered⟩ := covered
    show Sturdy ⟨life.journal.restart cfg, false⟩
    unfold restart
    split
    · exact ⟨sturdy.member, sturdy.fit, sturdy.held, fun _ => sturdy.covers safe⟩
    · rename_i s opened
      exact start_sturdy (sturdy.sound safe opened) sturdy.fit
        ((sturdy.backs safe).reopened opened (covered s opened))

def Restartable (cfg : Config) (life : Life) : Prop :=
  ∃ s r, life.journal.reopened = some s ∧
    Raft.newRaft { cfg with storage := s, applied := s.snap.lastIncludedIndex } = .ok r

theorem restartable_iff {cfg : Config} {life : Life} (fit : life.journal.files.Fit) :
    life.Restartable cfg ↔ Files.Restartable cfg life.journal.files := by
  rw [Restartable, reopened, fit.opens]
  rfl

/-- Whenever the process stops, except between a snapshot and the next hard state, its directory opens
and a new process can be made on it. -/
theorem restartable_throughout (limit threshold : Nat) (cfg : Config) (valid : Raft.validate cfg = true)
    (events : List LifeEvent)
    (covered : Runs.Along (step limit threshold cfg) Covered (start { cfg with storage := {}, applied := 0 } {})
      events) (n : Nat)
    (safe : (Runs.exec (step limit threshold cfg) (start { cfg with storage := {}, applied := 0 } {})
      (events.take n)).exposed = false) :
    (Runs.exec (step limit threshold cfg) (start { cfg with storage := {}, applied := 0 } {})
      (events.take n)).Restartable cfg := by
  have sturdy : Sturdy (start { cfg with storage := {}, applied := 0 } {}) :=
    start_sturdy sound_empty Files.fit_empty Files.backs_empty
  have last := Runs.invariant_take (step limit threshold cfg) Sturdy
    (fun _ _ sturdy covered => sturdy.step covered) sturdy covered n
  exact (restartable_iff last.fit).mpr ((last.backs safe).restartable valid)

/-- The follower takes an entry and its commit, is restarted, compacts, installs a snapshot, saves the
hard state that goes with it and is restarted again. -/
def followAndRestart : List LifeEvent :=
  Member.followOne.map LifeEvent.proceed ++
    [.proceed .ready, .proceed .save, .restart, .proceed .ready, .proceed .save, .proceed .send,
      .proceed .advance, .proceed (.compact 1), .proceed Member.snapFive, .proceed .ready, .proceed .save, .restart]

theorem followAndRestart_restartable :
    (Runs.exec (step 1 1 Member.followerConfig) (start Member.followerConfig {})
        followAndRestart).journal.proc.storage.snap.lastIncludedIndex = 5 ∧
      (Runs.exec (step 1 1 Member.followerConfig) (start Member.followerConfig {})
        (followAndRestart.take 17)).Restartable Member.followerConfig :=
  ⟨by decide +kernel, restartable_throughout 1 1 Member.followerConfig (by decide) followAndRestart
    (by decide +kernel) 17 (by decide +kernel)⟩

/-- The snapshot is on disk before the hard state that goes with it: a process that stops
here does not start again. -/
theorem snapshot_before_hard_state :
    Runs.Along (step 1 1 Member.followerConfig) Covered (start Member.followerConfig {})
        (Member.followOne.map LifeEvent.proceed ++ [.proceed Member.snapFive]) ∧
      ¬ (Runs.exec (step 1 1 Member.followerConfig) (start Member.followerConfig {})
        (Member.followOne.map LifeEvent.proceed ++ [.proceed Member.snapFive])).Restartable
          Member.followerConfig := by
  have covered : Runs.Along (step 1 1 Member.followerConfig) Covered (start Member.followerConfig {})
      (Member.followOne.map LifeEvent.proceed ++ [.proceed Member.snapFive]) := by decide +kernel
  have last := Runs.invariant (step 1 1 Member.followerConfig) Sturdy
    (fun _ _ sturdy covered => sturdy.step covered)
    (start_sturdy sound_empty Files.fit_empty Files.backs_empty) covered
  refine ⟨covered, ?_⟩
  rw [restartable_iff last.fit]
  decide +kernel

end Life

end Kvgo

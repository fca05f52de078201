import Kvgo.Raft.Boot
import Kvgo.Raft.Election

/-! At most one leader per term, through crashes and restarts. A promise leaves the
node only after the hard state that remembers it was saved, so a restart cannot
forget it. -/

namespace Kvgo

open Raft

def Covers (hd : HardState) (msg : Message) : Prop :=
  msg.term ≤ hd.term ∧ (msg.term = hd.term → hd.votedFor = promisedTo msg)

section Raft

variable {voters : List Nat} {n : Nat} {packets more : List Packet} {lent : List Message}
  {r r' : Raft}

theorem Raft.ElectionOK.relend (good : ElectionOK voters n packets lent r) (lent' : List Message)
    (fewer : ∀ msg ∈ lent', msg ∈ lent ∨ msg ∈ r.held) : ElectionOK voters n packets lent' r := by
  have sub : ∀ msg, Promised packets lent' n r msg → Promised packets lent n r msg := by
    rintro msg ⟨promise, sent | inside | inside⟩
    · exact ⟨promise, .inl sent⟩
    · exact ⟨promise, .inr (fewer msg inside)⟩
    · exact ⟨promise, .inr (.inr inside)⟩
  exact { good with
    known := fun msg promised => good.known msg (sub msg promised)
    bound := fun msg promised => good.bound msg (sub msg promised)
    once := fun msg msg' promised promised' => good.once msg msg' (sub msg promised) (sub msg' promised') }

theorem Raft.ElectionOK.grow (good : ElectionOK voters n packets lent r) (sub : packets ⊆ more)
    (own : ∀ msg, ⟨n, msg⟩ ∈ more → ⟨n, msg⟩ ∈ packets ∨ msg ∈ lent) :
    ElectionOK voters n more lent r := by
  have back : ∀ msg, Promised more lent n r msg → Promised packets lent n r msg := by
    rintro msg ⟨promise, sent | inside⟩
    · exact ⟨promise, (own msg sent).imp_right .inl⟩
    · exact ⟨promise, .inr inside⟩
  exact { good with
    asked := fun msg inside kind yes => (good.asked msg inside kind yes).imp_left (Asked.mono sub)
    known := fun msg promised => good.known msg (back msg promised)
    bound := fun msg promised => good.bound msg (back msg promised)
    once := fun msg msg' promised promised' => good.once msg msg' (back msg promised) (back msg' promised')
    tally := fun role q yes => (good.tally role q yes).imp_right (Granted.mono sub)
    led := fun role => (good.led role).mono sub }

theorem Raft.ElectionOK.works (good : ElectionOK voters n packets lent r)
    {calls : List (Raft × Message)}
    (each : ∀ call ∈ calls, Backed packets n call.2 ∧ KeepsTerm call.1 call.2)
    (works : Works calls r r') : ElectionOK voters n packets lent r' := by
  refine works.keeps (fun _ _ good same => good.quiet (quiet_soft same)) ?_ good
  intro r0 m r r' call _ good act
  have fine : Backed packets n m ∧ KeepsTerm r0 m := by
    rcases call with inside | ⟨_, kind⟩
    · exact each (r0, m) inside
    · constructor
      · constructor <;> intro other <;> rcases kind with kind | kind | kind <;> simp [kind] at other
      · rintro _ other
        rcases kind with kind | kind | kind <;> simp [kind] at other
  exact good.act fine.1 fine.2 act

theorem Raft.works_hd {calls : List (Raft × Message)} (works : Works calls r r') :
    r'.raftLog.storage.hd = r.raftLog.storage.hd := by
  refine works.keeps (P := fun s => s.raftLog.storage.hd = r.raftLog.storage.hd)
    (fun _ _ same soft => by rw [soft.raftLog]; exact same) ?_ rfl
  intro r0 m s s' _ _ same act
  rcases act.storage with storage | ⟨_, hd⟩
  · rw [storage]; exact same
  · rw [hd]; exact same

end Raft

structure NodeOK (cfg : ClusterConfig) (n : Nat) (packets : List Packet) (node : Node)
    (phase : Phase) : Prop where
  member : n ∈ cfg.voters
  core : ElectionOK cfg.voters n packets node.rd.messages node.r
  lentSender : ∀ msg ∈ node.rd.messages, isPromise msg → msg.fromId = n
  lentAsked : ∀ msg ∈ node.rd.messages, msg.type = .msgVoteResp → msg.reject = false →
    Asked packets msg.toId msg.term ∧ msg.toId ≠ None
  steps : ∀ msg ∈ node.stepsOnAdvance, msg.type ≠ .msgVote ∧ (isPromise msg → msg.fromId = n)
  persisted : ∀ msg, isPromise msg → ⟨n, msg⟩ ∈ packets → Covers node.r.raftLog.storage.hd msg
  covered : node.readyc = true ∨ node.advancec = true → ∀ msg, isPromise msg →
    ⟨n, msg⟩ ∈ packets ∨ msg ∈ node.rd.messages →
      Covers (node.r.raftLog.storage.effectiveHard node.rd.hardState) msg
  flags : phase = .idle ↔ node.advancec = false
  saved : phase = .saved ∨ phase = .sent →
    node.r.raftLog.storage.hd = node.r.raftLog.storage.effectiveHard node.rd.hardState
  prev : phase ≠ .stopped →
    phase = .idle ∨ phase = .accepted ∨ isEmptyHardState node.rd.hardState = true →
      node.prevHard = none ∨ node.prevHard = some node.r.raftLog.storage.hd

section Node

variable {cfg : ClusterConfig} {n : Nat} {packets more : List Packet} {node node' : Node} {phase : Phase}

theorem NodeOK.grow (good : NodeOK cfg n packets node phase) (sub : packets ⊆ more)
    (own : ∀ msg, ⟨n, msg⟩ ∈ more → ⟨n, msg⟩ ∈ packets) : NodeOK cfg n more node phase :=
  { good with
    core := good.core.grow sub (fun msg sent => .inl (own msg sent))
    lentAsked := fun msg inside kind yes =>
      (good.lentAsked msg inside kind yes).imp_left (Asked.mono sub)
    persisted := fun msg promise sent => good.persisted msg promise (own msg sent)
    covered := fun valid msg promise sent =>
      good.covered valid msg promise (sent.imp_left (own msg)) }

/-- Work on the state machine keeps the invariant. -/
theorem NodeOK.withRaft (good : NodeOK cfg n packets node phase) {r' : Raft}
    (core : ElectionOK cfg.voters n packets node.rd.messages r')
    (hd : r'.raftLog.storage.hd = node.r.raftLog.storage.hd) :
    NodeOK cfg n packets (node.withRaft r') phase := by
  obtain ⟨messages, hardState⟩ := withRaft_rd node r'
  obtain ⟨same, steps, prev, readyc, advancec⟩ := withRaft_rest node r'
  have effective : r'.raftLog.storage.effectiveHard node.rd.hardState =
      node.r.raftLog.storage.effectiveHard node.rd.hardState := by
    simp only [MemStorage.effectiveHard, hd]
  constructor
  · exact good.member
  · rw [messages, same]; exact core
  · rw [messages]; exact good.lentSender
  · rw [messages]; exact good.lentAsked
  · rw [steps]; exact good.steps
  · rw [same, hd]; exact good.persisted
  · rw [same, messages, hardState, readyc, advancec, effective]; exact good.covered
  · rw [advancec]; exact good.flags
  · rw [same, hardState, effective, hd]; exact good.saved
  · rw [prev, same, hardState, hd]; exact good.prev

/-- The head of the loop lends out what the buffers hold, under the current hard state. -/
theorem NodeOK.loopTop (good : NodeOK cfg n packets node phase) (top : node.loopTop = .ok node') :
    NodeOK cfg n packets node' phase := by
  rcases Cluster.loopTop_cases top with ⟨rfl, _⟩ | ⟨waiting, _, rd, ready, rfl⟩
  · exact good
  have idle : phase = .idle := good.flags.mpr waiting
  have shows := Node.ready_shows ready
  have hardState : rd.hardState = some node.r.hardState ∨
      rd.hardState = none ∧ node.prevHard = some node.r.hardState := by
    rw [shows.hardState]
    split
    · rename_i same; exact .inr ⟨rfl, same.symm⟩
    · exact .inl rfl
  have inside := held_of_shows shows
  refine { good with
    core := good.core.relend _ (fun msg here => .inr (inside msg here))
    lentSender := fun msg here => good.core.sender msg (inside msg here)
    lentAsked := fun msg here => good.core.asked msg (inside msg here)
    covered := fun _ msg promise here => ?_
    saved := by simp [idle]
    prev := fun _ _ => good.prev (by simp [idle]) (.inl idle) }
  have promised : Promised packets node.rd.messages n node.r msg :=
    ⟨promise, here.imp_right (fun here => .inr (inside msg here))⟩
  have positive := (good.core.known msg promised).2
  have bound : Covers node.r.hardState msg := good.core.bound msg promised
  rcases hardState with shown | ⟨shown, kept⟩
  · have full : isEmptyHardState (some node.r.hardState) = false := by
      have term : node.r.hardState.term ≠ 0 := by have := bound.1; omega
      simp [isEmptyHardState, term]
    simpa [MemStorage.effectiveHard, shown, full] using bound
  · rcases good.prev (by simp [idle]) (.inl idle) with none | stored
    · rw [none] at kept; cases kept
    · have same : node.r.raftLog.storage.hd = node.r.hardState :=
        Option.some.inj (stored.symm.trans kept)
      simpa [MemStorage.effectiveHard, shown, isEmptyHardState, same] using bound

theorem NodeOK.accept (good : NodeOK cfg n packets node .idle) (enabled : node.readyc = true) :
    NodeOK cfg n packets node.accept .accepted := by
  have quiet : Quiet node.r { node.r with msgsAfterAppend := [] } := by
    refine ⟨rfl, rfl, rfl, rfl, fun msg here => .inl ?_, by simp, .inr (.inr ⟨rfl, rfl⟩)⟩
    simp only [held, List.append_nil] at here
    simp [held, here]
  exact { good with
    core := good.core.quiet quiet
    steps := by
      intro msg here
      simp only [Node.accept, List.mem_append, List.mem_filter] at here
      rcases here with old | ⟨fresh, _⟩
      · exact good.steps msg old
      · refine ⟨fun vote => ?_, good.core.sender msg (by simp [held, fresh])⟩
        have kind := good.core.after msg fresh
        simp [vote, afterAppend] at kind
    covered := fun _ => good.covered (.inl enabled)
    flags := by simp [Node.accept]
    saved := by simp
    prev := fun _ _ => good.prev (by simp) (.inl rfl) }

theorem NodeOK.advance (good : NodeOK cfg n packets node .sent) (enabled : node.advancec = true)
    (keeps : ∀ call ∈ node.stepCalls .advance, KeepsTerm call.1 call.2)
    (works : Works (node.stepCalls .advance) (node.r.advance node.rd) node'.r)
    (done : node.advance = .ok node') : NodeOK cfg n packets node' .idle := by
  have cleared : Quiet node.r (node.r.advance node.rd) := by
    refine ⟨rfl, rfl, rfl, rfl, fun msg here => .inl ?_, fun _ here => .inl here,
      .inr (.inr ⟨rfl, rfl⟩)⟩
    simp only [held, Raft.advance, List.nil_append] at here
    simp [held, here]
  have each : ∀ call ∈ node.stepCalls .advance, Backed packets n call.2 ∧ KeepsTerm call.1 call.2 := by
    intro call inside
    refine ⟨?_, keeps call inside⟩
    simp only [Node.stepCalls, enabled, if_true] at inside
    obtain ⟨other, own⟩ := good.steps call.2 (callsFrom_mem inside)
    exact ⟨fun vote => absurd vote other, fun kind yes => .inl (own (.inr ⟨kind, yes⟩))⟩
  have core := ((good.core.quiet cleared).relend [] (by simp)).works each works
  have hd : node'.r.raftLog.storage.hd = node.r.raftLog.storage.hd := by
    rw [works_hd works]
    simp only [Raft.advance, advanceLog]
    split <;> split <;> rfl
  obtain ⟨r', _, last⟩ := Outcome.bind_eq_ok.mp done
  cases last
  refine ⟨good.member, core, by simp, by simp, by simp, ?_, ?_, by simp, by simp, fun _ _ => ?_⟩
  · simp only at hd ⊢
    rw [hd]; exact good.persisted
  · intro _ msg promise here
    simp only [MemStorage.effectiveHard, isEmptyHardState, if_true] at hd ⊢
    rw [hd]
    exact good.persisted msg promise (by simpa using here)
  · simp only at hd ⊢
    rw [hd]
    split
    · rename_i empty
      exact good.prev (by simp) (.inr (.inr empty))
    · rename_i full
      right
      have stored := good.saved (.inr rfl)
      simp only [MemStorage.effectiveHard, full] at stored
      cases shown : node.rd.hardState with
      | none => simp [shown, isEmptyHardState] at full
      | some hs => simp [shown] at stored; rw [stored]

theorem NodeOK.save (good : NodeOK cfg n packets node .accepted) {storage : MemStorage}
    {err : Option StorageError}
    (ok : node.r.raftLog.storage.save node.rd.entries node.rd.hardState = .ok (storage, err)) :
    NodeOK cfg n packets (Cluster.withStorage node storage) (if err = none then .saved else .stopped) := by
  have hd := MemStorage.save_hd ok
  have enabled : node.advancec = true := by
    have := good.flags
    simpa using this
  have effective : storage.effectiveHard node.rd.hardState =
      node.r.raftLog.storage.effectiveHard node.rd.hardState := by
    simp only [MemStorage.effectiveHard] at hd ⊢
    split
    · rename_i empty; simpa [empty] using hd
    · rename_i full
      cases shown : node.rd.hardState with
      | none => simp [shown, isEmptyHardState] at full
      | some hs => rfl
  have quiet : Quiet node.r (Cluster.withStorage node storage).r := quiet_of_eq rfl rfl rfl rfl rfl rfl rfl rfl
  exact { good with
    core := good.core.quiet quiet
    persisted := fun msg promise sent => by
      show Covers storage.hd msg
      rw [hd]
      exact good.covered (.inr enabled) msg promise (.inl sent)
    covered := fun _ msg promise sent => by
      show Covers (storage.effectiveHard node.rd.hardState) msg
      rw [effective]
      exact good.covered (.inr enabled) msg promise sent
    flags := by split <;> simp [Cluster.withStorage, enabled]
    saved := fun _ => hd.trans effective.symm
    prev := fun running shown => by
      have empty : isEmptyHardState node.rd.hardState = true := by
        rcases shown with shown | shown | shown
        · split at shown <;> cases shown
        · split at shown <;> cases shown
        · exact shown
      have same : storage.hd = node.r.raftLog.storage.hd := by
        simpa [MemStorage.effectiveHard, empty] using hd
      show node.prevHard = none ∨ node.prevHard = some storage.hd
      rw [same]
      exact good.prev (by simp) (.inr (.inl rfl)) }

theorem NodeOK.compact (good : NodeOK cfg n packets node phase) {storage : MemStorage}
    (hd : storage.hd = node.r.raftLog.storage.hd) :
    NodeOK cfg n packets (Cluster.withStorage node storage) phase := by
  have effective : storage.effectiveHard node.rd.hardState =
      node.r.raftLog.storage.effectiveHard node.rd.hardState := by
    simp only [MemStorage.effectiveHard, hd]
  have quiet : Quiet node.r (Cluster.withStorage node storage).r := quiet_of_eq rfl rfl rfl rfl rfl rfl rfl rfl
  exact { good with
    core := good.core.quiet quiet
    persisted := fun msg => by
      show _ → _ → Covers storage.hd msg
      rw [hd]; exact good.persisted msg
    covered := fun valid msg => by
      show _ → _ → Covers (storage.effectiveHard node.rd.hardState) msg
      rw [effective]; exact good.covered valid msg
    saved := fun kind => by
      show storage.hd = storage.effectiveHard node.rd.hardState
      rw [hd, effective]; exact good.saved kind
    prev := fun running shown => by
      show node.prevHard = none ∨ node.prevHard = some storage.hd
      rw [hd]; exact good.prev running shown }

end Node

/-! The cluster. -/

structure ClusterOK (cfg : ClusterConfig) (c : Cluster) : Prop where
  nodes : ∀ n node phase, c.procs n = .up node phase → NodeOK cfg n c.packets node phase
  down : ∀ n cause storage, c.procs n = .down cause storage → ∀ msg, isPromise msg →
    ⟨n, msg⟩ ∈ c.packets → Covers storage.hd msg
  sender : ∀ p ∈ c.packets, isPromise p.msg → p.msg.fromId = p.src
  asked : ∀ p ∈ c.packets, p.msg.type = .msgVoteResp → p.msg.reject = false →
    Asked c.packets p.msg.toId p.msg.term ∧ p.msg.toId ≠ None
  known : ∀ p ∈ c.packets, isPromise p.msg → promisedTo p.msg ≠ None ∧ 0 < p.msg.term
  once : ∀ p ∈ c.packets, ∀ p' ∈ c.packets, isPromise p.msg → isPromise p'.msg → p.src = p'.src →
    p.msg.term = p'.msg.term → promisedTo p.msg = promisedTo p'.msg

section Cluster

variable {cfg : ClusterConfig} {c : Cluster}

/-- Replacing one process by another that is fine. -/
theorem ClusterOK.setProc (good : ClusterOK cfg c) (id : Nat) (proc : Proc)
    (arrived : List Nat) (delivered : List (Nat × Entry))
    (up : ∀ node phase, proc = .up node phase → NodeOK cfg id c.packets node phase)
    (down : ∀ cause storage, proc = .down cause storage → ∀ msg, isPromise msg →
      ⟨id, msg⟩ ∈ c.packets → Covers storage.hd msg) :
    ClusterOK cfg { c.setProc id proc with arrived, delivered } where
  nodes n node phase here := by
    by_cases same : n = id
    · subst same
      exact up node phase (by simpa [Cluster.setProc] using here)
    · exact good.nodes n node phase (by simpa [Cluster.setProc, same] using here)
  down n cause storage here := by
    by_cases same : n = id
    · subst same
      exact down cause storage (by simpa [Cluster.setProc] using here)
    · exact good.down n cause storage (by simpa [Cluster.setProc, same] using here)
  sender := good.sender
  asked := good.asked
  known := good.known
  once := good.once

theorem ClusterOK.backed (good : ClusterOK cfg c) {p : Packet} (sent : p ∈ c.packets) :
    Backed c.packets p.msg.toId p.msg where
  request kind := by
    have promise : isPromise p.msg := .inl kind
    have sender := good.sender p sent promise
    have known := good.known p sent promise
    simp only [promisedTo, kind, if_true] at known
    exact ⟨⟨p.msg, by rw [sender]; exact sent, kind, rfl, rfl⟩, known⟩
  response kind yes := by
    have sender := good.sender p sent (.inr ⟨kind, yes⟩)
    exact .inr ⟨rfl, by rw [sender]; exact sent⟩

theorem backed_of_type {packets : List Packet} {n : Nat} {m : Message}
    (vote : m.type ≠ .msgVote) (resp : m.type ≠ .msgVoteResp) : Backed packets n m :=
  ⟨fun kind => absurd kind vote, fun kind => absurd kind resp⟩

/-- Each call of `Step` that an event makes is backed. -/
theorem ClusterOK.calls_backed (good : ClusterOK cfg c) {e : ClusterEvent} {id : Nat}
    {arm : Node.Event} {node : Node} (aimed : c.target e = some (id, arm))
    (ordinary : arm ≠ .accept ∧ arm ≠ .advance) :
    ∀ call ∈ node.stepCalls arm, Backed c.packets id call.2 := by
  intro call inside
  obtain ⟨_, ⟨position, p, _, found, rfl, same⟩ | ⟨_, kind⟩⟩ :=
    Cluster.calls_cases aimed ordinary.2 inside
  · rw [same]
    exact good.backed (List.mem_of_getElem? found)
  · refine backed_of_type ?_ ?_ <;> intro other <;> simp [other] at kind

theorem NodeOK.ran {packets : List Packet} {n : Nat} {node : Node} {phase phase' : Phase}
    {arm : Node.Event} {proc : Proc} (ran : Cluster.Ran node phase' arm proc)
    (good : NodeOK cfg n packets node phase)
    (selected : ∀ mid, node.Selected arm mid → NodeOK cfg n packets mid phase') :
    (∀ node' phase'', proc = .up node' phase'' → NodeOK cfg n packets node' phase'') ∧
    (∀ cause storage, proc = .down cause storage → ∀ msg, isPromise msg →
      ⟨n, msg⟩ ∈ packets → Covers storage.hd msg) := by
  cases ran with
  | panicked p failed =>
    refine ⟨by simp, fun cause storage here => ?_⟩
    cases here
    exact good.persisted
  | panickedAfter mid p done failed =>
    refine ⟨by simp, fun cause storage here => ?_⟩
    cases here
    exact (selected mid done).persisted
  | ok mid node' done top =>
    refine ⟨fun node'' phase'' here => ?_, by simp⟩
    cases here
    exact (selected mid done).loopTop top

theorem compactLocked_hd {s s' : MemStorage} {index : Nat} {err : Option StorageError}
    (ok : s.compactLocked index = .ok (s', err)) : s'.hd = s.hd := by
  unfold MemStorage.compactLocked at ok
  split at ok
  · cases ok; rfl
  split at ok
  · cases ok; rfl
  obtain ⟨term, _, ok⟩ := Outcome.bind_eq_ok.mp ok
  cases term <;> cases ok <;> rfl

theorem ClusterOK.boot {id : Nat} (storage : MemStorage) (rng : Nat → Nat)
    (packets : List Packet) (voter : id ∈ cfg.voters)
    (known : ∀ p ∈ packets, isPromise p.msg → promisedTo p.msg ≠ None ∧ 0 < p.msg.term)
    (once : ∀ p ∈ packets, ∀ p' ∈ packets, isPromise p.msg → isPromise p'.msg → p.src = p'.src →
      p.msg.term = p'.msg.term → promisedTo p.msg = promisedTo p'.msg)
    (covered : ∀ msg, isPromise msg → ⟨id, msg⟩ ∈ packets → Covers storage.hd msg) :
    (∀ node phase, Cluster.boot cfg id storage rng = .up node phase →
      NodeOK cfg id packets node phase) ∧
    (∀ cause storage', Cluster.boot cfg id storage rng = .down cause storage' →
      ∀ msg, isPromise msg → ⟨id, msg⟩ ∈ packets → Covers storage'.hd msg) := by
  refine ⟨fun node phase up => ?_, fun cause storage' down => Cluster.boot_down down ▸ covered⟩
  obtain ⟨rfl, r, fresh, top⟩ := Cluster.boot_up up
  have empty : r.held = [] := by simp [held, fresh.messages, fresh.msgsAfterAppend]
  have electorate : r.trk.voters.ids.Perm cfg.voters := by
    rw [fresh.voters]; exact Cluster.buildMajorityConfig_perm cfg voter
  have sent : ∀ msg, Promised packets [] id r msg → isPromise msg ∧ ⟨id, msg⟩ ∈ packets := by
    rintro msg ⟨promise, here | here | here⟩
    · exact ⟨promise, here⟩
    · cases here
    · simp [empty] at here
  refine NodeOK.loopTop ?_ top
  refine ⟨voter, ⟨fresh.id, fun zero => cfg.nonzero (zero ▸ voter), ?_, electorate, ?_, ?_, ?_, ?_, ?_,
    ?_, ?_, ?_, ?_⟩, ?_, ?_, ?_, ?_, ?_, ?_, ?_, fun _ _ => .inl rfl⟩
  · intro none
    have := electorate.length_eq
    have := List.length_pos_of_mem voter
    simp only [MajorityConfig.size] at none
    omega
  · simp [empty]
  · simp [empty]
  · simp [fresh.msgsAfterAppend]
  · intro msg promised
    obtain ⟨promise, here⟩ := sent msg promised
    exact known ⟨id, msg⟩ here promise
  · intro msg promised
    obtain ⟨promise, here⟩ := sent msg promised
    rw [fresh.term, fresh.votedFor]
    exact covered msg promise here
  · intro msg msg' promised promised' same
    obtain ⟨promise, here⟩ := sent msg promised
    obtain ⟨promise', here'⟩ := sent msg' promised'
    exact once _ here _ here' promise promise' rfl same
  · simp [fresh.state]
  · simp [fresh.state]
  · simp [fresh.state]
  · simp
  · simp
  · simp
  · simp only [fresh.storage]; exact covered
  · simp
  · simp
  · simp

/-- The promises a host sends are those its node lent it. -/
theorem ClusterOK.send (good : ClusterOK cfg c) {id : Nat} {node : Node}
    (up : c.procs id = .up node .saved) :
    ClusterOK cfg { c.setProc id (.up node .sent) with
      packets := c.packets ++ node.rd.messages.map (Packet.mk id) } := by
  have here := good.nodes id node .saved up
  set more := c.packets ++ node.rd.messages.map (Packet.mk id) with more_eq
  have sub : c.packets ⊆ more := List.subset_append_left _ _
  have split : ∀ p ∈ more, p ∈ c.packets ∨ p.src = id ∧ p.msg ∈ node.rd.messages := by
    intro p inside
    rw [more_eq, List.mem_append, List.mem_map] at inside
    refine inside.imp_right ?_
    rintro ⟨msg, lent, rfl⟩
    exact ⟨rfl, lent⟩
  have own : ∀ msg, ⟨id, msg⟩ ∈ more → ⟨id, msg⟩ ∈ c.packets ∨ msg ∈ node.rd.messages :=
    fun msg inside => (split _ inside).imp_right (fun new => new.2)
  have promised : ∀ p ∈ more, isPromise p.msg → p.src = id →
      Promised c.packets node.rd.messages id node.r p.msg := by
    intro p inside promise src
    refine ⟨promise, (split p inside).imp (fun old => ?_) (fun new => .inl new.2)⟩
    rw [← src]; exact old
  have enabled : node.advancec = true := by simpa using here.flags
  refine ⟨?_, ?_, ?_, ?_, ?_, ?_⟩
  · intro n node' phase there
    by_cases same : n = id
    · subst same
      simp only [Cluster.setProc, Function.update_self, Proc.up.injEq] at there
      obtain ⟨rfl, rfl⟩ := there
      exact { here with
        core := here.core.grow sub own
        lentAsked := fun msg inside kind yes =>
          (here.lentAsked msg inside kind yes).imp_left (Asked.mono sub)
        persisted := fun msg promise inside => by
          rw [here.saved (.inl rfl)]
          exact here.covered (.inr enabled) msg promise (own msg inside)
        covered := fun valid msg promise inside =>
          here.covered valid msg promise (inside.elim (own msg) .inr)
        flags := by simp [enabled]
        saved := fun _ => here.saved (.inl rfl)
        prev := fun _ shown => here.prev (by simp) (by simpa using shown) }
    · refine (good.nodes n node' phase (by simpa [Cluster.setProc, same] using there)).grow sub ?_
      exact fun msg inside => (split _ inside).resolve_right (fun new => same new.1)
  · intro n cause storage there msg promise inside
    by_cases same : n = id
    · subst same
      simp [Cluster.setProc] at there
    · exact good.down n cause storage (by simpa [Cluster.setProc, same] using there) msg promise
        ((split _ inside).resolve_right (fun new => same new.1))
  · intro p inside promise
    rcases split p inside with old | ⟨src, lent⟩
    · exact good.sender p old promise
    · exact (here.lentSender p.msg lent promise).trans src.symm
  · intro p inside kind yes
    rcases split p inside with old | ⟨src, lent⟩
    · exact (good.asked p old kind yes).imp_left (Asked.mono sub)
    · exact (here.lentAsked p.msg lent kind yes).imp_left (Asked.mono sub)
  · intro p inside promise
    rcases split p inside with old | ⟨src, _⟩
    · exact good.known p old promise
    · exact here.core.known p.msg (promised p inside promise src)
  · intro p inside p' inside' promise promise' src term
    by_cases same : p.src = id
    · exact here.core.once _ _ (promised p inside promise same)
        (promised p' inside' promise' (src ▸ same)) term
    · have old := (split p inside).resolve_right (fun new => same new.1)
      have old' := (split p' inside').resolve_right (fun new => same (src.trans new.1))
      exact good.once p old p' old' promise promise' src term

theorem NodeOK.selected {packets : List Packet} {n : Nat} {node mid : Node} {phase : Phase}
    {arm : Node.Event} (good : NodeOK cfg n packets node phase)
    (ordinary : arm ≠ .accept ∧ arm ≠ .advance)
    (each : ∀ call ∈ node.stepCalls arm, Backed packets n call.2 ∧ KeepsTerm call.1 call.2)
    (selected : node.Selected arm mid) : NodeOK cfg n packets mid phase := by
  cases selected with
  | idle => exact good
  | work r' _ works => exact good.withRaft (good.core.works each works) (works_hd works)
  | accept kind => exact absurd kind ordinary.1
  | advance _ kind => exact absurd kind ordinary.2

def NoRollback (c : Cluster) (e : ClusterEvent) : Prop :=
  ∀ call ∈ c.stepCalls e, KeepsTerm call.1 call.2

instance (c : Cluster) (e : ClusterEvent) : Decidable (NoRollback c e) := by
  unfold NoRollback; infer_instance

theorem ClusterOK.step (good : ClusterOK cfg c) {e : ClusterEvent} (keeps : NoRollback c e) :
    ClusterOK cfg (Cluster.step cfg c e) := by
  have stepped := Cluster.step_cases cfg c e
  unfold NoRollback Cluster.stepCalls at keeps
  generalize Cluster.step cfg c e = c' at stepped
  cases stepped with
  | skip e arrived => exact { good with }
  | ran e arrived id node phase arm proc up aimed ordinary ran =>
    simp only [aimed, up, ordinary.2, false_and, if_false] at keeps
    have here := good.nodes id node phase up
    have fine := NodeOK.ran ran here (fun mid => here.selected ordinary
      (fun call inside => ⟨good.calls_backed aimed ordinary call inside, keeps call inside⟩))
    exact good.setProc id proc arrived c.delivered fine.1 fine.2
  | ready id node proc up enabled ran =>
    have here := good.nodes id node .idle up
    have fine := NodeOK.ran ran here (fun mid selected => by
      rw [selected.of_accept enabled]
      exact here.accept enabled)
    exact good.setProc id proc c.arrived _ fine.1 fine.2
  | advance id node proc up ran =>
    simp only [Cluster.target, up, ne_eq, not_true, and_false, if_false] at keeps
    have here := good.nodes id node .sent up
    have enabled : node.advancec = true := by simpa using here.flags
    have fine := NodeOK.ran ran here (fun mid selected => by
      obtain ⟨works, done⟩ := selected.of_advance enabled
      exact here.advance enabled keeps works done)
    exact good.setProc id proc c.arrived c.delivered fine.1 fine.2
  | save id node storage err up saved =>
    have here := (good.nodes id node .accepted up).save saved
    refine good.setProc id _ c.arrived c.delivered (fun node' phase' same => ?_) (by simp)
    cases same
    exact here
  | send id node up => exact good.send up
  | compact id index node phase storage err up compacted =>
    have here := (good.nodes id node phase up).compact (compactLocked_hd compacted)
    refine good.setProc id _ c.arrived c.delivered (fun node' phase' same => ?_) (by simp)
    cases same
    exact here
  | halt e id node phase cause up kind =>
    refine good.setProc id _ c.arrived c.delivered (by simp) (fun cause storage same => ?_)
    cases same
    exact (good.nodes id node phase up).persisted
  | restart id rng cause storage down voter =>
    have fine := ClusterOK.boot storage rng c.packets voter good.known good.once (good.down id cause storage down)
    exact good.setProc id _ c.arrived c.delivered fine.1 fine.2

theorem ClusterOK.init (cfg : ClusterConfig) (rng : Nat → Nat → Nat) :
    ClusterOK cfg (Cluster.init cfg rng) := by
  have start : ∀ n ∈ cfg.voters, _ := fun n voter =>
    ClusterOK.boot {} (rng n) [] voter (by simp) (by simp) (by simp)
  refine ⟨fun n node phase up => ?_, fun n cause storage down => by simp [Cluster.init], by simp [Cluster.init],
    by simp [Cluster.init], by simp [Cluster.init], by simp [Cluster.init]⟩
  simp only [Cluster.init] at up ⊢
  split at up
  · rename_i voter
    exact (start n voter).1 node phase up
  · cases up

/-- Two nodes that a majority backs in one term are the same node. -/
theorem ClusterOK.led_unique (good : ClusterOK cfg c) {a b term : Nat} (voterA : a ∈ cfg.voters)
    (voterB : b ∈ cfg.voters) (ledA : Led cfg.voters c.packets a term)
    (ledB : Led cfg.voters c.packets b term) : a = b := by
  by_contra differ
  have many : 2 ≤ cfg.voters.length := by
    by_contra few
    have := List.length_pos_of_mem voterA
    obtain ⟨x, single⟩ := List.length_eq_one_iff.mp (by omega : cfg.voters.length = 1)
    simp only [single, List.mem_singleton] at voterA voterB
    exact differ (voterA.trans voterB.symm)
  -- a node that won also promised its vote to itself, since somebody answered its request
  have self : ∀ x, Led cfg.voters c.packets x term → Asked c.packets x term := by
    intro x led
    obtain ⟨q, _, other, granted⟩ := led.2.exists_ne cfg.nodup many x
    obtain ⟨msg, sent, kind, yes, rfl, rfl⟩ := granted.resolve_left other
    exact (good.asked _ sent kind yes).1
  have exclusive : ∀ q x y, Granted c.packets q x term → Granted c.packets q y term → x = y := by
    rintro q x y ⟨msg, sent, kind, yes, rfl, rfl⟩ ⟨msg', sent', kind', yes', rfl, same⟩
    have := good.once _ sent _ sent' (.inr ⟨kind, yes⟩) (.inr ⟨kind', yes'⟩) rfl same.symm
    simpa [promisedTo, kind, kind'] using this
  have loyal : ∀ x y, Asked c.packets x term → Granted c.packets x y term → x = y := by
    rintro x y ⟨msg, sent, kind, sender, rfl⟩ ⟨msg', sent', kind', yes', rfl, same⟩
    have := good.once _ sent _ sent' (.inl kind) (.inr ⟨kind', yes'⟩) rfl same.symm
    simpa [promisedTo, kind, kind', sender] using this
  obtain ⟨q, _, forA, forB⟩ := ledA.2.inter ledB.2
  rcases forA with rfl | forA <;> rcases forB with rfl | forB
  · exact differ rfl
  · exact differ (loyal _ _ (self _ ledA) forB)
  · exact differ (loyal _ _ (self _ ledB) forA).symm
  · exact differ (exclusive _ _ _ forA forB)

end Cluster

def ElectionSafe (cfg : ClusterConfig) (rng : Nat → Nat → Nat) (events : List ClusterEvent) : Prop :=
  ∀ i j a b ra rb,
    (Cluster.exec cfg (Cluster.init cfg rng) (events.take i)).raft? a = some ra →
    (Cluster.exec cfg (Cluster.init cfg rng) (events.take j)).raft? b = some rb →
    ra.state = .leader → rb.state = .leader → ra.term = rb.term → a = b

/-- Election safety of the runs in which no campaigning node is taken back to an
earlier term by a leader's message. -/
theorem election_safety (cfg : ClusterConfig) (rng : Nat → Nat → Nat) (events : List ClusterEvent)
    (keeps : Runs.Along (Cluster.step cfg) NoRollback (Cluster.init cfg rng) events) :
    ElectionSafe cfg rng events := by
  have moments : ∀ i, ClusterOK cfg (Cluster.exec cfg (Cluster.init cfg rng) (events.take i)) :=
    Runs.invariant_take _ (ClusterOK cfg) (fun _ _ good ok => good.step ok) (ClusterOK.init cfg rng) keeps
  have led : ∀ i a ra,
      (Cluster.exec cfg (Cluster.init cfg rng) (events.take i)).raft? a = some ra →
      ra.state = .leader → a ∈ cfg.voters ∧
        Led cfg.voters (Cluster.exec cfg (Cluster.init cfg rng) (events.take i)).packets a ra.term := by
    intro i a ra here role
    obtain ⟨node, phase, up, rfl⟩ := raft_eq_some here
    have fine := (moments i).nodes a node phase up
    exact ⟨fine.member, fine.core.led role⟩
  have later : ∀ i j, i ≤ j →
      (Cluster.exec cfg (Cluster.init cfg rng) (events.take i)).packets ⊆
        (Cluster.exec cfg (Cluster.init cfg rng) (events.take j)).packets := by
    intro i j order
    obtain ⟨k, rfl⟩ := Nat.exists_eq_add_of_le order
    rw [List.take_add, Cluster.exec, Cluster.exec, Runs.exec_append]
    exact packets_exec cfg _ _
  intro i j a b ra rb hereA hereB roleA roleB same
  obtain ⟨voterA, ledA⟩ := led i a ra hereA roleA
  obtain ⟨voterB, ledB⟩ := led j b rb hereB roleB
  rw [← same] at ledB
  rcases Nat.le_total i j with order | order
  · exact (moments j).led_unique voterA voterB (ledA.mono (later i j order)) ledB
  · exact (moments i).led_unique voterA voterB ledA (ledB.mono (later j i order))

theorem firstElection_safe :
    Runs.Along (Cluster.step threeNodes) NoRollback (Cluster.init threeNodes (fun _ _ => 0)) firstElection ∧
      ElectionSafe threeNodes (fun _ _ => 0) firstElection :=
  ⟨by decide +kernel, election_safety _ _ _ (by decide +kernel)⟩

/-- After `firstElection` node 1 leads term 2 with the vote of node 3. Node 3 starts a
campaign, an append of term 1 makes it a follower of term 1 without a vote, and it
then votes for node 2 in term 2. -/
def secondVote : List ClusterEvent :=
  [firstElection, [.deliver 3, .campaign 1], Cluster.round 1, [.deliver 9], Cluster.round 3,
    [.deliver 11], Cluster.round 1, [.deliver 13], Cluster.round 3, [.deliver 14], Cluster.round 1,
    [.campaign 3, .deliver 7, .tick 2, .tick 2, .campaign 2], Cluster.round 2, [.deliver 20],
    Cluster.round 3, [.deliver 24], Cluster.round 2, [.deliver 26], Cluster.round 3,
    [.deliver 27]].flatten

theorem secondVote_two_leaders : ¬ElectionSafe threeNodes (fun _ _ => 0) secondVote := by
  intro safe
  have leaders : ∀ id ∈ [1, 2],
      ((Cluster.exec threeNodes (Cluster.init threeNodes (fun _ _ => 0)) (secondVote.take 100)).raft? id).map
        (fun r => (r.state, r.term)) = some (.leader, 2) := by
    decide +kernel
  obtain ⟨ra, hereA, stateA⟩ := Option.map_eq_some_iff.mp (leaders 1 (by simp))
  obtain ⟨rb, hereB, stateB⟩ := Option.map_eq_some_iff.mp (leaders 2 (by simp))
  simp only [Prod.mk.injEq] at stateA stateB
  have := safe 100 100 1 2 ra rb hereA hereB stateA.1 stateB.1 (stateA.2.trans stateB.2.symm)
  omega

end Kvgo

import Kvgo.Raft.LogMatching

/-! The match index of a leader: what it counts as replicated in its own term, the counted
node has in its durable storage. -/

namespace Kvgo

/-- The message acknowledges, for node `q` in term `t`, the log up to index `i`. -/
structure Message.Acks (m : Message) (q t i : Nat) : Prop where
  kind : m.type = .msgAppResp
  accepted : m.reject = false
  sender : m.fromId = q
  term : m.term = t
  reach : i ≤ m.index

theorem Message.Acks.le_acked {voters : List Nat} {s : History} {m : Message} {q t i : Nat}
    (acks : m.Acks q t i) (ok : MsgOK voters s m) : i ≤ s.acked q t := by
  have bound := ok.ack acks.kind acks.accepted
  rw [acks.sender, acks.term] at bound
  exact acks.reach.trans bound

namespace Raft

/-- A leader counts its entry `i`, which is of its own term, as replicated at `q`. -/
def Counts (r : Raft) (q i : Nat) : Prop :=
  r.state = .leader ∧ 0 < i ∧ ∃ p e, r.trk.progress q = some p ∧ i ≤ p.matchIndex ∧
    r.raftLog.view[i - 1]? = some e ∧ e.term = r.term

section Counts

variable {voters : List Nat} {s : History} {n q i : Nat} {r r' r0 : Raft} {m : Message}

theorem Counts.of_eq (counts : r'.Counts q i) (state : r'.state = r.state) (term : r'.term = r.term)
    (view : r'.raftLog.view = r.raftLog.view) (progress : r'.trk.progress = r.trk.progress) :
    r.Counts q i ∧ r.term = r'.term := by
  obtain ⟨role, positive, p, e, tracked, bound, here, own⟩ := counts
  exact ⟨⟨state ▸ role, positive, p, e, progress ▸ tracked, bound, view ▸ here, term ▸ own⟩, term.symm⟩

theorem Counts.soft (counts : r'.Counts q i) (same : Soft r r') : r.Counts q i ∧ r.term = r'.term := by
  obtain ⟨role, positive, p, e, tracked, bound, here, own⟩ := counts
  obtain ⟨p0, tracked0, match0, _⟩ := Still.progress same.progress tracked
  exact ⟨⟨same.state ▸ role, positive, p0, e, tracked0, match0 ▸ bound, same.raftLog ▸ here,
    same.term ▸ own⟩, same.term.symm⟩

theorem Sim.counts_le (sim : Sim voters s n r) (counts : r.Counts q i) : i ≤ s.acked q r.term := by
  obtain ⟨role, _, p, _, tracked, bound, _⟩ := counts
  exact bound.trans (sim.acked role q p tracked)

theorem appendEntry_view (layered : r.raftLog.Layered) {data : Bytes} (ok : r.appendEntry data = .ok r') :
    r'.raftLog.view = r.raftLog.view ++ [⟨r.raftLog.lastIndex + 1, r.term, data⟩] := by
  obtain ⟨raftLog, done, rfl⟩ := appendEntry_eq ok
  have indexed : IndexedFrom (r.raftLog.view.length + 1) [(⟨r.raftLog.lastIndex + 1, r.term, data⟩ : Entry)] := by
    intro i d here
    obtain ⟨rfl, rfl⟩ : i = 0 ∧ (⟨r.raftLog.lastIndex + 1, r.term, data⟩ : Entry) = d := by
      simpa [List.getElem?_singleton] using here
    simp [layered.lastIndex]
  rw [enqueue_raftLog]
  simpa using (layered.appendEntries le_rfl indexed (by simp) done).view

/-- One act: the leader counts what it counted, or what the message acknowledges. -/
theorem Sim.counts_act (sim : Sim voters s n r) (inv : TermLog.Inv Entry.term voters s)
    (current : Current r0 m) (act : Act r0 m r r') (counts : r'.Counts q i) :
    (r.Counts q i ∧ r.term = r'.term) ∨ m.Acks q r'.term i := by
  have follower : r'.state = .follower → (r.Counts q i ∧ r.term = r'.term) ∨ m.Acks q r'.term i :=
    fun role => absurd counts.1 (by simp [role])
  have same : r'.state = r.state → r'.term = r.term → r'.raftLog.view = r.raftLog.view →
      r'.trk.progress = r.trk.progress → (r.Counts q i ∧ r.term = r'.term) ∨ m.Acks q r'.term i :=
    fun state term view progress => .inl (counts.of_eq state term view progress)
  cases act with
  | soft kept => exact .inl (counts.soft kept)
  | emit msg => exact same (by simp) (by simp) (by simp) (by simp)
  | resend => exact same (by simp) (by simp) (by simp) (by simp)
  | follow => exact follower (by simp)
  | yield => exact follower (by simp)
  | abdicate => exact follower (by simp)
  | preCampaign role => exact absurd counts.1 (by simp [becomePreCandidate])
  | candidacy role => exact absurd counts.1 (by simp)
  | tally role => exact absurd counts.1 (by rcases role with role | role <;> simp [role])
  | lead role won taken appended =>
    have took := takeLead_spec taken
    obtain ⟨_, positive, p, e, tracked, bound, here, own⟩ := counts
    obtain ⟨_, term, trk⟩ := appendEntry_rest appended
    rw [trk] at tracked
    have top := (took.tracked tracked).1
    have last := sim.layered.lastIndex
    have below : i - 1 < r.raftLog.view.length := by split at top <;> omega
    rw [appendEntry_view (took.raftLog ▸ sim.layered) appended, took.raftLog,
      List.getElem?_append_left below] at here
    have older := (inv.stood _ _ _ (sim.stands role).1).2.2.2.1 e (List.mem_of_getElem? here)
    rw [term, took.term] at own
    omega
  | propose data role appended =>
    obtain ⟨_, positive, p, e, tracked, bound, here, own⟩ := counts
    obtain ⟨_, term, trk⟩ := appendEntry_rest appended
    rw [trk] at tracked
    have short := (bound.trans (sim.acked role q p tracked)).trans (inv.ackedBound q r.term)
    rw [(sim.leads role).2] at short
    rw [appendEntry_view sim.layered appended, List.getElem?_append_left (by omega)] at here
    exact .inl ⟨⟨role, positive, p, e, tracked, bound, here, term ▸ own⟩, term.symm⟩
  | grant => exact same (by simp) (by simp) (by simp) (by simp)
  | accept appended committed heard role => exact follower (by simpa using role)
  | refuse heard role => exact follower (by simpa using role)
  | beat raftLog heard role => exact follower (by simpa using role)
  | restore snap storage heard role => exact follower role
  | ack p role kind bound tracked start =>
    obtain ⟨leader0, term0, _⟩ := start
    have now : m.term = r.term := by
      have := current (.inr ⟨kind, leader0⟩)
      omega
    obtain ⟨_, positive, p', e, tracked', bound', here, own⟩ := counts
    by_cases self : q = m.fromId
    · subst self
      have new : p' = ackedProgress p m := by
        simpa [Raft.setProgress, ProgressTracker.setProgress, eq_comm] using tracked'
      rw [new, ackedProgress] at bound'
      split at bound'
      · exact .inl ⟨⟨role, positive, p, e, tracked, bound', here, own⟩, rfl⟩
      · rename_i yes
        exact .inr ⟨kind, by simpa using yes, rfl, now, bound'⟩
    · have old : r.trk.progress q = some p' := by
        simpa [Raft.setProgress, ProgressTracker.setProgress, self] using tracked'
      exact .inl ⟨⟨role, positive, p', e, old, bound', here, own⟩, rfl⟩
  | commit raftLog role current committed =>
    refine same rfl rfl ?_ rfl
    rcases RaftLog.commitTo_eq_ok committed with ⟨_, rfl⟩ | ⟨_, _, rfl⟩ <;> rfl
  | drain => exact same rfl rfl rfl rfl
  | readSingle => exact same rfl rfl rfl rfl
  | queueRead => exact same rfl rfl rfl rfl
  | holdRead => exact same rfl rfl rfl rfl
  | ackRead => exact same rfl rfl rfl rfl
  | release => exact same rfl rfl rfl rfl
  | noteRead => exact same rfl rfl rfl rfl

def Signed (n : Nat) (msgs : List Message) : Prop :=
  ∀ msg ∈ msgs, msg.type = .msgAppResp → msg.fromId = n

theorem Act.signed (act : Act r0 m r r') (id : r.id = n) (signed : Signed n r.held) :
    Signed n r'.held := by
  have queued : ∀ (x : Raft) new, (∀ msg ∈ x.held, msg ∈ r.held) →
      (new.type = .msgAppResp → new.fromId = n) → Signed n (x.enqueue new).held := by
    intro x new old fine msg inside kind
    rcases held_enqueue x new inside with before | rfl
    · exact signed msg (old msg before) kind
    · exact fine kind
  have answered : ∀ (x : Raft) reqs, x.held = r.held → Signed n (x.answerAll reqs).held := by
    intro x reqs old msg inside kind
    rcases held_answerAll x reqs inside with before | other
    · exact signed msg (old ▸ before) kind
    · simp [other] at kind
  have appends : ∀ (x : Raft) data x', x.id = r.id → x.held = r.held → x.appendEntry data = .ok x' →
      Signed n x'.held := by
    intro x data x' same old ok
    obtain ⟨raftLog, _, rfl⟩ := appendEntry_eq ok
    exact queued _ _ (fun msg inside => old ▸ inside) (fun _ => same.trans id)
  cases act with
  | soft same => simpa [held, same.messages, same.msgsAfterAppend] using signed
  | emit msg sent =>
    refine queued _ _ (fun _ inside => inside) (fun kind => ?_)
    cases sent with
    | idle msg idle sender => exact sender.trans id
    | forward role kind' => rcases kind' with kind' | kind' | kind' <;> simp [kind'] at kind
    | vote => simp [voteRequest] at kind
    | snapshot => simp [snapMsg] at kind
    | heartbeat => simp [heartbeatMsg] at kind
  | resend => exact queued _ _ (fun _ inside => inside) (by simp [appendMsg])
  | grant => exact queued _ _ (fun _ inside => inside) (by simp)
  | refuse => exact queued _ _ (fun _ inside => inside) (fun _ => id)
  | accept => exact queued _ _ (fun _ inside => inside) (fun _ => by simp [acceptResp_fromId, id])
  | beat => exact queued _ _ (fun _ inside => inside) (by simp)
  | lead role won taken appended =>
    have took := takeLead_spec taken
    exact appends _ _ _ took.id (by simp [held, took.messages, took.msgsAfterAppend]) appended
  | propose data role appended => exact appends _ _ _ rfl rfl appended
  | follow => simpa [held] using signed
  | yield => simpa [held] using signed
  | abdicate => simpa [held] using signed
  | candidacy role => simpa [held, becomeCandidate, recordVote] using signed
  | drain => exact answered _ _ rfl
  | readSingle => exact answered _ _ rfl
  | release => exact answered _ _ rfl
  | _ => exact signed

/-- Work on a node: what it counts and signs after it. -/
theorem Sim.works_counts (sim : Sim voters s n r) (inv : TermLog.Inv Entry.term voters s) {lent : Option Nat}
    {calls : List (Raft × Message)}
    (each : ∀ call ∈ calls, Sound voters s n call.2 ∧ Tame lent call.1 call.2)
    (works : Works calls r r') (signed : Signed n r.held) :
    Signed n r'.held ∧ ∀ q i, r'.Counts q i →
      (r.Counts q i ∧ r.term = r'.term) ∨ ∃ call ∈ calls, call.2.Acks q r'.term i := by
  refine (works.keeps (P := fun x => (∃ s', TermLog.Moves Entry.term voters n s s' ∧ Sim voters s' n x) ∧
    Signed n x.held ∧ ∀ q i, x.Counts q i →
      (r.Counts q i ∧ r.term = x.term) ∨ ∃ call ∈ calls, call.2.Acks q x.term i) ?_ ?_
    ⟨⟨s, .refl, sim⟩, signed, fun q i counts => .inl ⟨counts, rfl⟩⟩).2
  · rintro r1 r2 ⟨⟨s', moves, sim'⟩, signed', counted⟩ same
    refine ⟨⟨s', moves, sim'.soft same⟩, ?_, fun q i counts => ?_⟩
    · rw [Raft.held, same.messages, same.msgsAfterAppend]
      exact signed'
    · obtain ⟨before, term⟩ := counts.soft same
      rw [← term]
      exact counted q i before
  · rintro r0 m r1 r2 call - ⟨⟨s', moves, sim'⟩, signed', counted⟩ act
    obtain ⟨inv', ext, _⟩ := inv.moves moves
    obtain ⟨sound, tame⟩ := fine_call inv ext each call
    obtain ⟨⟨s'', moves', sim''⟩, _⟩ := sim'.act inv' sound tame act
    refine ⟨⟨s'', moves.trans moves', sim''⟩, act.signed sim'.id signed', fun q i counts => ?_⟩
    rcases sim'.counts_act inv' tame.current act counts with ⟨before, same⟩ | acks
    · rw [← same]
      exact counted q i before
    · rcases call with inside | ⟨_, kind⟩
      · exact .inr ⟨(r0, m), inside, acks⟩
      · have response := acks.kind
        rcases kind with kind | kind | kind <;> simp [kind] at response

end Counts

end Raft

def Node.pending (node : Node) : Phase → List Entry
  | .accepted =>
    match node.rd.entries with
    | [] => node.r.raftLog.storage.entries
    | e :: _ => node.r.raftLog.storage.entries.take (e.index - 1) ++ node.rd.entries
  | _ => node.r.raftLog.storage.entries

/-- In term `t` the log of `q` counts as replicated up to `i`, or will once a packet arrives. -/
def Cluster.Credits (c : Cluster) (q t i : Nat) : Prop :=
  (∃ p ∈ c.packets, p.msg.Acks q t i) ∨ ∃ n r, c.raft? n = some r ∧ r.term = t ∧ r.Counts q i

/-- Node `q` has on its disk, or offers to its host, what it is credited with in its term. -/
structure Backed (s : History) (c : Cluster) (q : Nat) (node : Node) (phase : Phase) : Prop where
  counted : ∀ i, c.Credits q node.r.term i →
    TermLog.Agree i node.r.raftLog.storage.entries (s.llog node.r.term) ∧
      TermLog.Agree i (node.pending phase) (s.llog node.r.term)
  offered : phase ≠ .idle → ∀ msg ∈ node.rd.messages ++ node.stepsOnAdvance, ∀ i,
    msg.Acks q node.r.term i → TermLog.Agree i (node.pending phase) (s.llog node.r.term)
  signed : Raft.Signed q (node.r.held ++ (node.rd.messages ++ node.stepsOnAdvance))

section Backed

variable {cfg : ClusterConfig} {s s' : History} {c c' : Cluster} {q t i id : Nat} {node node' : Node}
  {phase : Phase}

theorem ClusterSim.credits_le (sim : ClusterSim cfg s c) (credit : c.Credits q t i) : i ≤ s.acked q t := by
  rcases credit with ⟨p, sent, acks⟩ | ⟨n, r, up, rfl, counts⟩
  · exact acks.le_acked (sim.packets p sent)
  · exact (sim.core up).counts_le counts

theorem none_acked (inv : TermLog.Inv Entry.term cfg.voters s) (later : s.term q < t) : s.acked q t = 0 := by
  by_contra some
  have := inv.ackedTerm q t (by omega)
  omega

theorem HostSim.offered_ok (host : HostSim cfg s q node phase) :
    ∀ msg ∈ node.rd.messages ++ node.stepsOnAdvance, MsgOK cfg.voters s msg := by
  intro msg inside
  rcases List.mem_append.mp inside with lent | own
  · exact host.messages msg lent
  · exact (host.steps msg own).ok

theorem Backed.credits (backed : Backed s c q node phase) (sim : ClusterSim cfg s c)
    (up : c.procs q = .up node phase) (ext : TermLog.Ext s s') (later : node.r.term ≤ t)
    (credit : c.Credits q t i) :
    TermLog.Agree i node.r.raftLog.storage.entries (s'.llog t) ∧
      TermLog.Agree i (node.pending phase) (s'.llog t) := by
  rcases later.eq_or_lt with rfl | later
  · obtain ⟨disk, pending⟩ := backed.counted i credit
    exact ⟨disk.right (ext.llog _), pending.right (ext.llog _)⟩
  · have bound := sim.credits_le credit
    rw [none_acked sim.inv ((sim.hosts q node phase up).1.core.term ▸ later)] at bound
    rw [Nat.le_zero.mp bound]
    exact ⟨TermLog.agree_zero, TermLog.agree_zero⟩

theorem Backed.offer (backed : Backed s c q node phase) (sim : ClusterSim cfg s c)
    (up : c.procs q = .up node phase) (ext : TermLog.Ext s s') (later : node.r.term ≤ t)
    (busy : phase ≠ .idle) {msg : Message} (inside : msg ∈ node.rd.messages ++ node.stepsOnAdvance)
    (acks : msg.Acks q t i) : TermLog.Agree i (node.pending phase) (s'.llog t) := by
  obtain ⟨host, _⟩ := sim.hosts q node phase up
  rcases later.eq_or_lt with rfl | later
  · exact (backed.offered busy msg inside i acks).right (ext.llog _)
  · have bound := acks.le_acked (host.offered_ok msg inside)
    rw [none_acked sim.inv (host.core.term ▸ later)] at bound
    rw [Nat.le_zero.mp bound]
    exact TermLog.agree_zero

theorem Backed.frame (backed : Backed s c q node phase) (ext : TermLog.Ext s s')
    (credits : ∀ t i, c'.Credits q t i → c.Credits q t i) : Backed s' c' q node phase where
  counted i credit :=
    let ⟨disk, pending⟩ := backed.counted i (credits _ _ credit)
    ⟨disk.right (ext.llog _), pending.right (ext.llog _)⟩
  offered busy msg inside i acks := (backed.offered busy msg inside i acks).right (ext.llog _)
  signed := backed.signed

theorem raft?_setProc {n : Nat} {r : Raft} {proc : Proc} (up : (c.setProc id proc).raft? n = some r) :
    n = id ∧ (∃ node phase, proc = .up node phase ∧ node.r = r) ∨ n ≠ id ∧ c.raft? n = some r := by
  by_cases same : n = id
  · subst same
    refine .inl ⟨rfl, ?_⟩
    simp only [Cluster.raft?, Cluster.setProc, Function.update_self] at up
    cases proc with
    | up node phase =>
      cases up
      exact ⟨node, phase, rfl, rfl⟩
    | down => cases up
  · exact .inr ⟨same, by simpa [Cluster.raft?, Cluster.setProc, same] using up⟩

/-- The head of the loop. -/
theorem Backed.loopTop (backed : Backed s c q node phase) (flags : phase = .idle ↔ node.advancec = false)
    (top : node.loopTop = .ok node') : Backed s c q node' phase := by
  rcases Cluster.loopTop_cases top with ⟨rfl, _⟩ | ⟨waiting, _, rd, ready, rfl⟩
  · exact backed
  · have idle := flags.mpr waiting
    subst idle
    refine ⟨backed.counted, fun busy => absurd rfl busy, ?_⟩
    have messages := Raft.held_of_shows (Node.ready_shows ready)
    intro msg inside
    refine backed.signed msg ?_
    simp only [List.mem_append] at inside ⊢
    rcases inside with held | lent | own
    · exact .inl held
    · exact .inl (messages msg lent)
    · exact .inr (.inr own)

theorem HostSim.pending_withRaft {r' : Raft} (host : HostSim cfg s q node phase)
    (memory : Raft.Memory node.lentArray node.r.raftLog r'.raftLog) :
    (node.withRaft r').pending phase = node.pending phase := by
  have same := (withRaft_rest node r').1
  cases phase with
  | accepted => simp only [Node.pending, same, memory.storage, host.lent_entries (by simp) memory]
  | _ => simp only [Node.pending, same, memory.storage]

theorem Backed.withRaft {r' : Raft} (backed : Backed s c q node phase) (sim : ClusterSim cfg s c)
    (up : c.procs q = .up node phase) (ext : TermLog.Ext s s') (later : node.r.term ≤ r'.term)
    (memory : Raft.Memory node.lentArray node.r.raftLog r'.raftLog) (signed : Raft.Signed q r'.held)
    (credits : ∀ i, c'.Credits q r'.term i → c.Credits q r'.term i) :
    Backed s' c' q (node.withRaft r') phase := by
  obtain ⟨host, _⟩ := sim.hosts q node phase up
  obtain ⟨messages, _⟩ := withRaft_rd node r'
  obtain ⟨same, steps, _⟩ := withRaft_rest node r'
  refine ⟨fun i credit => ?_, fun busy msg inside i acks => ?_, ?_⟩
  · rw [host.pending_withRaft memory]
    rw [same, memory.storage]
    rw [same] at credit
    exact backed.credits sim up ext later (credits i credit)
  · rw [host.pending_withRaft memory, same]
    rw [messages, steps] at inside
    rw [same] at acks
    exact backed.offer sim up ext later busy inside acks
  · rw [same, messages, steps]
    intro msg inside
    rcases List.mem_append.mp inside with held | old
    · exact signed msg held
    · exact backed.signed msg (List.mem_append_right _ old)

/-- What a fresh `Ready` will leave on the disk is the whole log. -/
theorem HostSim.pending_accept (host : HostSim cfg s q node .idle) (fresh : node.UpToDate .idle)
    (enabled : node.readyc = true) : node.accept.pending .accepted = node.r.raftLog.view := by
  obtain ⟨entries, _⟩ := fresh rfl enabled
  have layered := host.core.layered
  show (match node.rd.entries with
    | [] => node.r.raftLog.storage.entries
    | e :: _ => node.r.raftLog.storage.entries.take (e.index - 1) ++ node.rd.entries) = _
  rw [entries]
  cases some : node.r.raftLog.unstable.entries with
  | nil =>
    have settled := layered.settled some
    rw [RaftLog.view, some, List.append_nil, List.take_of_length_le (by omega)]
  | cons e rest =>
    have index := layered.unstable 0 e (by simp [some])
    simp only [RaftLog.view, some, index, Nat.add_zero]

theorem Backed.accept (backed : Backed s c q node .idle) (sim : ClusterSim cfg s c)
    (up : c.procs q = .up node .idle) (enabled : node.readyc = true)
    (credits : ∀ t i, c'.Credits q t i → c.Credits q t i) : Backed s c' q node.accept .accepted := by
  obtain ⟨host, fresh⟩ := sim.hosts q node .idle up
  have whole := host.pending_accept fresh enabled
  have reach : ∀ i, i ≤ s.acked q node.r.term →
      TermLog.Agree i (node.accept.pending .accepted) (s.llog node.r.term) := by
    intro i bound
    have now := sim.inv.now q
    rw [host.core.term, host.core.log] at now
    rw [whole]
    exact now.mono bound
  have mine : ∀ msg ∈ node.accept.rd.messages ++ node.accept.stepsOnAdvance,
      msg ∈ node.r.held ++ (node.rd.messages ++ node.stepsOnAdvance) := by
    intro msg inside
    simp only [Node.accept, List.mem_append, List.mem_filter, Raft.held] at inside ⊢
    tauto
  refine ⟨fun i credit => ?_, fun _ msg inside i acks => ?_, fun msg inside => backed.signed msg ?_⟩
  · have before := credits _ _ credit
    exact ⟨(backed.counted i before).1, reach i (sim.credits_le before)⟩
  · have ok : MsgOK cfg.voters s msg := by
      rcases List.mem_append.mp (mine msg inside) with held | old
      · exact host.core.held msg held
      · exact host.offered_ok msg old
    exact reach i (acks.le_acked ok)
  · rcases List.mem_append.mp inside with held | old
    · simp only [Node.accept, Raft.held, List.append_nil] at held
      simp [Raft.held, held]
    · exact mine msg old

/-- The save leaves what was pending on the disk. -/
theorem HostSim.saved_pending (host : HostSim cfg s q node .accepted) {storage : MemStorage}
    {err : Option StorageError}
    (ok : node.r.raftLog.storage.save node.rd.entries node.rd.hardState = .ok (storage, err)) :
    err = none ∧ storage.entries = node.pending .accepted := by
  have plain := host.core.layered.plain
  cases some : node.rd.entries with
  | nil =>
    obtain ⟨storage', saved, _, entries⟩ := plain.save node.rd.entries node.rd.hardState (o := 1) (by omega)
      (by simp) (by rw [some]; intro i e here; simp at here)
    obtain ⟨rfl, rfl⟩ : storage' = storage ∧ none = err := by simpa [saved] using ok
    rw [if_pos some] at entries
    exact ⟨rfl, by simp only [Node.pending, some, entries]⟩
  | cons e rest =>
    obtain ⟨o, lent, before, _⟩ := host.lent (by simp) (by simp [some])
    obtain ⟨storage', saved, _, entries⟩ := plain.save node.rd.entries node.rd.hardState lent.positive
      (before rfl).stored lent.indexed
    obtain ⟨rfl, rfl⟩ : storage' = storage ∧ none = err := by simpa [saved] using ok
    have index := lent.indexed 0 e (by simp [some])
    rw [if_neg (by simp [some])] at entries
    refine ⟨rfl, ?_⟩
    simp only [Node.pending, some, entries, index, Nat.add_zero]

theorem Backed.save (backed : Backed s c q node .accepted) (host : HostSim cfg s q node .accepted)
    {storage : MemStorage} {err : Option StorageError}
    (ok : node.r.raftLog.storage.save node.rd.entries node.rd.hardState = .ok (storage, err))
    (credits : ∀ t i, c'.Credits q t i → c.Credits q t i) :
    Backed s c' q (Cluster.withStorage node storage) (if err = none then .saved else .stopped) := by
  obtain ⟨rfl, entries⟩ := host.saved_pending ok
  have pending : (Cluster.withStorage node storage).pending .saved = node.pending .accepted := entries
  refine ⟨fun i credit => ?_, fun _ msg inside i acks => ?_, backed.signed⟩
  · have agree := (backed.counted i (credits _ _ credit)).2
    exact ⟨entries ▸ agree, pending ▸ agree⟩
  · exact pending ▸ backed.offered (by simp) msg inside i acks

/-- Once the host has saved, it may send the messages of the `Ready`. -/
theorem Backed.send (backed : Backed s c q node .saved)
    (credits : ∀ t i, c'.Credits q t i → c.Credits q t i ∨ ∃ msg ∈ node.rd.messages, msg.Acks q t i) :
    Backed s c' q node .sent := by
  refine ⟨fun i credit => ?_, fun _ => backed.offered (by simp), backed.signed⟩
  rcases credits _ _ credit with old | ⟨msg, inside, acks⟩
  · exact backed.counted i old
  · have agree := backed.offered (by simp) msg (List.mem_append_left _ inside) i acks
    exact ⟨agree, agree⟩

theorem Backed.advance (backed : Backed s c q node .sent) (sim : ClusterSim cfg s c)
    (up : c.procs q = .up node .sent) (ext : TermLog.Ext s s') (done : node.advance = .ok node')
    (later : node.r.term ≤ node'.r.term)
    (storage : node'.r.raftLog.storage = node.r.raftLog.storage) (signed : Raft.Signed q node'.r.held)
    (credits : ∀ i, c'.Credits q node'.r.term i → c.Credits q node'.r.term i ∨
      ∃ msg ∈ node.stepsOnAdvance, msg.Acks q node'.r.term i) : Backed s' c' q node' .idle := by
  obtain ⟨r', _, last⟩ := Outcome.bind_eq_ok.mp done
  cases last
  refine ⟨fun i credit => ?_, fun busy => absurd rfl busy, ?_⟩
  · have disk : TermLog.Agree i node.r.raftLog.storage.entries (s'.llog r'.term) := by
      rcases credits i credit with old | ⟨msg, own, acks⟩
      · exact (backed.credits sim up ext later old).1
      · exact backed.offer sim up ext later (by simp) (List.mem_append_right _ own) acks
    simp only [Node.pending]
    rw [storage]
    exact ⟨disk, disk⟩
  · intro msg inside
    exact signed msg (by simpa using inside)

theorem credits_setProc {proc : Proc} (credit : c'.Credits q t i) (packets : c'.packets = c.packets)
    (procs : c'.procs = (c.setProc id proc).procs) :
    c.Credits q t i ∨ ∃ node phase, proc = .up node phase ∧ node.r.term = t ∧ node.r.Counts q i := by
  rcases credit with ⟨p, sent, acks⟩ | ⟨n, r, up, term, counts⟩
  · exact .inl (.inl ⟨p, packets ▸ sent, acks⟩)
  · have there : (c.setProc id proc).raft? n = some r := by
      unfold Cluster.raft? at up ⊢
      rw [← procs]
      exact up
    rcases raft?_setProc there with ⟨_, node, phase, here, rfl⟩ | ⟨_, before⟩
    · exact .inr ⟨node, phase, here, term, counts⟩
    · exact .inl (.inr ⟨n, r, before, term, counts⟩)

def AllBacked (s : History) (c : Cluster) : Prop :=
  ∀ q node phase, c.procs q = .up node phase → Backed s c q node phase

theorem AllBacked.setProc {proc : Proc} (all : AllBacked s c) (ext : TermLog.Ext s s')
    (procs : c'.procs = (c.setProc id proc).procs)
    (credits : ∀ q, q ≠ id → ∀ t i, c'.Credits q t i → c.Credits q t i)
    (own : ∀ node phase, proc = .up node phase → Backed s' c' id node phase) : AllBacked s' c' := by
  intro q node phase up
  rw [procs] at up
  by_cases same : q = id
  · subst same
    exact own node phase (by simpa [Cluster.setProc] using up)
  · exact (all q node phase (by simpa [Cluster.setProc, same] using up)).frame ext (credits q same)

theorem acks_of_calls {e : ClusterEvent} {arm : Node.Event} (aimed : c.target e = some (id, arm))
    (ordinary : arm ≠ .advance) (acked : ∃ call ∈ node.stepCalls arm, call.2.Acks q t i) :
    c.Credits q t i := by
  obtain ⟨call, inside, acks⟩ := acked
  obtain ⟨_, ⟨_, p, _, found, _, same⟩ | ⟨_, kind⟩⟩ := Cluster.calls_cases aimed ordinary inside
  · exact .inl ⟨p, List.mem_of_getElem? found, same ▸ acks⟩
  · have response := acks.kind
    rcases kind with kind | kind | kind | ⟨kind, _⟩ <;> simp [kind] at response

theorem loopTop_r (top : node.loopTop = .ok node') : node'.r = node.r := by
  rcases Cluster.loopTop_cases top with ⟨rfl, _⟩ | ⟨_, _, _, _, rfl⟩ <;> rfl

/-- What an ordinary arm of the loop counts has been credited before, and it leaves the node backed. -/
theorem Backed.selected {e : ClusterEvent} {arm : Node.Event} (backed : Backed s c id node phase)
    (sim : ClusterSim cfg s c) (up : c.procs id = .up node phase) (aimed : c.target e = some (id, arm))
    (ordinary : arm ≠ .accept ∧ arm ≠ .advance)
    (tame : ∀ call ∈ node.stepCalls arm, Raft.Tame node.lentArray call.1 call.2) {mid : Node}
    (selected : node.Selected arm mid) (ext : TermLog.Ext s s') (later : node.r.term ≤ mid.r.term) :
    mid.advancec = node.advancec ∧ (∀ q i, mid.r.Counts q i → c.Credits q mid.r.term i) ∧
      ∀ c' : Cluster, (∀ q t i, c'.Credits q t i → c.Credits q t i) → Backed s' c' id mid phase := by
  have known : ∀ q i, node.r.Counts q i → c.Credits q node.r.term i :=
    fun q i counts => .inr ⟨id, node.r, by simp [Cluster.raft?, up], rfl, counts⟩
  obtain ⟨host, _⟩ := sim.hosts id node phase up
  cases selected with
  | idle => exact ⟨rfl, known, fun c' credits => backed.frame ext (credits id)⟩
  | work r' _ works =>
    obtain ⟨same, _, _, _, advancec⟩ := withRaft_rest node r'
    have each : ∀ call ∈ node.stepCalls arm,
        Raft.Sound cfg.voters s id call.2 ∧ Raft.Tame node.lentArray call.1 call.2 :=
      fun call inside => ⟨sim.sound aimed ordinary.2 call inside, tame call inside⟩
    obtain ⟨_, memory⟩ := host.core.works sim.inv each works
    obtain ⟨signed, counted⟩ := host.core.works_counts sim.inv each works
      (fun msg inside => backed.signed msg (List.mem_append_left _ inside))
    rw [same] at later ⊢
    refine ⟨advancec, fun q i counts => ?_, fun c' credits =>
      backed.withRaft sim up ext later memory signed (fun i => credits id _ i)⟩
    rcases counted q i counts with ⟨before, term⟩ | acked
    · exact term ▸ known q i before
    · exact acks_of_calls aimed ordinary.2 acked
  | accept kind => exact absurd kind ordinary.1
  | advance _ kind => exact absurd kind ordinary.2

theorem ClusterSim.later (sim : ClusterSim cfg s c) (sim' : ClusterSim cfg s' c') (ext : TermLog.Ext s s')
    {phase' : Phase} (up : c.procs id = .up node phase) (up' : c'.procs id = .up node' phase') :
    node.r.term ≤ node'.r.term := by
  rw [← (sim.hosts id node phase up).1.core.term, ← (sim'.hosts id node' phase' up').1.core.term]
  exact ext.term id

theorem AllBacked.down {cause : Option Panic} {storage : MemStorage} (all : AllBacked s c)
    (ext : TermLog.Ext s s') (packets : c'.packets = c.packets)
    (procs : c'.procs = (c.setProc id (.down cause storage)).procs) : AllBacked s' c' := by
  refine all.setProc ext procs (fun q _ t i credit => ?_) (by simp)
  rcases credits_setProc credit packets procs with old | ⟨_, _, dead, _⟩
  · exact old
  · cases dead

theorem AllBacked.ran {e : ClusterEvent} {arm : Node.Event} {proc : Proc} (all : AllBacked s c)
    (sim : ClusterSim cfg s c) (sim' : ClusterSim cfg s' c') (ext : TermLog.Ext s s')
    (up : c.procs id = .up node phase) (aimed : c.target e = some (id, arm))
    (ordinary : arm ≠ .accept ∧ arm ≠ .advance)
    (tame : ∀ call ∈ node.stepCalls arm, Raft.Tame node.lentArray call.1 call.2)
    (ran : Cluster.Ran node phase arm proc) (packets : c'.packets = c.packets)
    (procs : c'.procs = (c.setProc id proc).procs) : AllBacked s' c' := by
  cases ran with
  | ok mid node' selected top =>
    have same := loopTop_r top
    have up' : c'.procs id = .up node' phase := by rw [procs]; simp [Cluster.setProc]
    have later := sim.later sim' ext up up'
    rw [same] at later
    obtain ⟨advancec, counted, left⟩ :=
      (all id node phase up).selected sim up aimed ordinary tame selected ext later
    have credits : ∀ q t i, c'.Credits q t i → c.Credits q t i := by
      intro q t i credit
      rcases credits_setProc credit packets procs with old | ⟨_, _, here, rfl, counts⟩
      · exact old
      · cases here
        rw [same] at counts ⊢
        exact counted q i counts
    refine all.setProc ext procs (fun q _ => credits q) (fun _ _ here => ?_)
    cases here
    refine (left c' credits).loopTop ?_ top
    rw [advancec]
    exact (sim.hosts id node phase up).1.flags
  | panicked => exact all.down ext packets procs
  | panickedAfter => exact all.down ext packets procs

theorem AllBacked.still {phase' : Phase} (all : AllBacked s c) (up : c.procs id = .up node phase)
    (packets : c'.packets = c.packets) (procs : c'.procs = (c.setProc id (.up node' phase')).procs)
    (same : ∀ q i, node'.r.Counts q i → node.r.Counts q i ∧ node.r.term = node'.r.term)
    (own : (∀ t i, c'.Credits id t i → c.Credits id t i) → Backed s c' id node' phase') : AllBacked s c' := by
  have credits : ∀ q t i, c'.Credits q t i → c.Credits q t i := by
    intro q t i credit
    rcases credits_setProc credit packets procs with old | ⟨_, _, here, rfl, counts⟩
    · exact old
    · cases here
      obtain ⟨before, term⟩ := same q i counts
      exact .inr ⟨id, node.r, by simp [Cluster.raft?, up], term, before⟩
  refine all.setProc (.refl s) procs (fun q _ => credits q) (fun _ _ here => ?_)
  cases here
  exact own (credits id)

theorem AllBacked.ext (all : AllBacked s c) (ext : TermLog.Ext s s') : AllBacked s' c :=
  fun q node phase up => (all q node phase up).frame ext (fun _ _ credit => credit)

theorem AllBacked.send (all : AllBacked s c) (up : c.procs id = .up node .saved) :
    AllBacked s { c.setProc id (.up node .sent) with
      packets := c.packets ++ node.rd.messages.map (Packet.mk id) } := by
  have backed := all id node .saved up
  have credits : ∀ q t i, ({ c.setProc id (.up node .sent) with
      packets := c.packets ++ node.rd.messages.map (Packet.mk id) } : Cluster).Credits q t i →
      c.Credits q t i ∨ ∃ msg ∈ node.rd.messages, msg.Acks q t i := by
    rintro q t i (⟨p, sent, acks⟩ | ⟨n, r, here, term, counts⟩)
    · rcases List.mem_append.mp sent with old | new
      · exact .inl (.inl ⟨p, old, acks⟩)
      · obtain ⟨msg, inside, rfl⟩ := List.mem_map.mp new
        exact .inr ⟨msg, inside, acks⟩
    · rcases raft?_setProc (c := c) here with ⟨rfl, _, _, same, rfl⟩ | ⟨_, before⟩
      · cases same
        exact .inl (.inr ⟨n, node.r, by simp [Cluster.raft?, up], term, counts⟩)
      · exact .inl (.inr ⟨n, r, before, term, counts⟩)
  refine all.setProc (.refl s) rfl (fun q other t i credit => ?_) (fun _ _ here => ?_)
  · rcases credits q t i credit with old | ⟨msg, inside, acks⟩
    · exact old
    · have signed := backed.signed msg (by simp [inside]) acks.kind
      exact absurd (acks.sender.symm.trans signed) other
  · cases here
    exact backed.send (credits id)

theorem AllBacked.advance {proc : Proc} (all : AllBacked s c) (sim : ClusterSim cfg s c)
    (sim' : ClusterSim cfg s' (c.setProc id proc)) (ext : TermLog.Ext s s')
    (up : c.procs id = .up node .sent)
    (tame : ∀ call ∈ node.stepCalls .advance, Raft.Tame node.lentArray call.1 call.2)
    (ran : Cluster.Ran node .idle .advance proc) : AllBacked s' (c.setProc id proc) := by
  obtain ⟨host, _⟩ := sim.hosts id node .sent up
  have backed := all id node .sent up
  have enabled : node.advancec = true := by simpa using host.flags
  cases ran with
  | ok mid node' selected top =>
    obtain ⟨works, done⟩ := selected.of_advance enabled
    have same := loopTop_r top
    have later := sim.later sim' ext up (by simp [Cluster.setProc] :
      (c.setProc id (.up node' .idle)).procs id = .up node' .idle)
    rw [same] at later
    obtain ⟨released, view⟩ := host.released sim.inv
    have own : ∀ call ∈ node.stepCalls .advance, call.2 ∈ node.stepsOnAdvance := by
      intro call inside
      simp only [Node.stepCalls, enabled, if_true] at inside
      exact callsFrom_mem inside
    have each : ∀ call ∈ node.stepCalls .advance,
        Raft.Sound cfg.voters s id call.2 ∧ Raft.Tame node.lentArray call.1 call.2 :=
      fun call inside => ⟨host.steps call.2 (own call inside), tame call inside⟩
    obtain ⟨_, memory⟩ := released.works sim.inv each works
    obtain ⟨signed, counted⟩ := released.works_counts sim.inv each works (fun msg inside => by
      refine backed.signed msg ?_
      simp only [Raft.held, Raft.advance, List.nil_append] at inside
      simp [Raft.held, inside])
    have credits : ∀ q t i, (c.setProc id (.up node' .idle)).Credits q t i →
        c.Credits q t i ∨ ∃ msg ∈ node.stepsOnAdvance, msg.Acks q t i := by
      intro q t i credit
      rcases credits_setProc (c := c) credit rfl rfl with old | ⟨_, _, here, rfl, counts⟩
      · exact .inl old
      · cases here
        rw [same] at counts ⊢
        rcases counted q i counts with ⟨before, term⟩ | ⟨call, inside, acks⟩
        · obtain ⟨before, _⟩ := before.of_eq (r := node.r) rfl rfl view rfl
          exact .inl (.inr ⟨id, node.r, by simp [Cluster.raft?, up], term, before⟩)
        · exact .inr ⟨call.2, own call inside, acks⟩
    refine all.setProc ext rfl (fun q other t i credit => ?_) (fun _ _ here => ?_)
    · rcases credits q t i credit with old | ⟨msg, inside, acks⟩
      · exact old
      · have mine := backed.signed msg (by simp [inside]) acks.kind
        exact absurd (acks.sender.symm.trans mine) other
    · cases here
      have idle : mid.advancec = false := by
        obtain ⟨_, _, last⟩ := Outcome.bind_eq_ok.mp done
        cases last
        rfl
      exact (backed.advance sim up ext done later (memory.storage.trans (Raft.advanceLog_storage _ _)) signed
        (fun i => credits id _ i)).loopTop (by simp [idle]) top
  | panicked => exact all.down ext rfl rfl
  | panickedAfter => exact all.down ext rfl rfl

/-- A tame step keeps the backing. -/
theorem AllBacked.step (all : AllBacked s c) (sim : ClusterSim cfg s c) {e : ClusterEvent}
    (lasting : Cluster.isLasting e = true) (tame : Cluster.Tame c e) (ext : TermLog.Ext s s')
    (sim' : ClusterSim cfg s' (Cluster.step cfg c e)) : AllBacked s' (Cluster.step cfg c e) := by
  have stepped := Cluster.step_cases cfg c e
  unfold Cluster.Tame Cluster.stepCalls Cluster.lentArray at tame
  generalize Cluster.step cfg c e = c' at stepped sim'
  cases stepped with
  | skip e arrived => exact fun q node phase up => (all q node phase up).frame ext (fun _ _ credit => credit)
  | ran e arrived id node phase arm proc up aimed ordinary ran =>
    simp only [aimed, up, ordinary.2, false_and, if_false] at tame
    exact all.ran sim sim' ext up aimed ordinary tame ran rfl rfl
  | ready id node proc up enabled ran =>
    have backed := all id node .idle up
    cases ran with
    | ok mid node' selected top =>
      rw [selected.of_accept enabled] at top
      have same := loopTop_r top
      refine AllBacked.ext (all.still up rfl rfl (fun q i counts => ?_) (fun credits => ?_)) ext
      · rw [same] at counts ⊢
        exact counts.of_eq rfl rfl rfl rfl
      · exact (backed.accept sim up enabled credits).loopTop (by simp [Node.accept]) top
    | panicked => exact all.down ext rfl rfl
    | panickedAfter => exact all.down ext rfl rfl
  | advance id node proc up ran =>
    simp only [Cluster.target, up, ne_eq, not_true, and_false, if_false] at tame
    exact all.advance sim sim' ext up tame ran
  | save id node storage err up saved =>
    obtain ⟨host, _⟩ := sim.hosts id node .accepted up
    have view := (host.save saved).core.log.symm.trans host.core.log
    refine AllBacked.ext (all.still up rfl rfl (fun q i counts => ?_) (fun credits => ?_)) ext
    · exact counts.of_eq rfl rfl view rfl
    · exact (all id node .accepted up).save host saved credits
  | send id node up => exact (all.send up).ext ext
  | compact id index => simp [Cluster.isLasting] at lasting
  | halt e id node phase cause up kind => exact all.down ext rfl rfl
  | restart id rng => simp [Cluster.isLasting] at lasting

theorem AllBacked.init (cfg : ClusterConfig) (rng : Nat → Nat → Nat) :
    AllBacked (TermLog.State.init Nat Entry) (Cluster.init cfg rng) := by
  intro q node phase up
  have none : ∀ t i, (Cluster.init cfg rng).Credits q t i → i = 0 := by
    intro t i credit
    have bound := (ClusterSim.init cfg rng).credits_le credit
    simpa [TermLog.State.init] using bound
  simp only [Cluster.init] at up
  split at up
  · obtain ⟨rfl, r, fresh, top⟩ := Cluster.boot_up up
    refine Backed.loopTop ⟨fun i credit => ?_, fun busy => absurd rfl busy, ?_⟩ (by simp) top
    · rw [none _ i credit]
      exact ⟨TermLog.agree_zero, TermLog.agree_zero⟩
    · simp [Raft.Signed, Raft.held, fresh.messages, fresh.msgsAfterAppend]
  · cases up

end Backed

/-- What a leader counts of its own term, the counted node holds in its storage until it
moves to a later term. -/
def MatchIndexTrue (c : Cluster) : Prop :=
  ∀ n q r rq p i e, c.raft? n = some r → r.state = .leader → r.trk.progress q = some p →
    i ≤ p.matchIndex → r.raftLog.heldAt i = some e → e.term = r.term →
    c.raft? q = some rq → rq.term ≤ r.term → rq.raftLog.storage.entryAt i = some e

theorem MemStorage.Plain.entryAt {st : MemStorage} (plain : st.Plain) {i : Nat} {e : Entry} (positive : 0 < i)
    (here : st.entries[i - 1]? = some e) : st.entryAt i = some e := by
  have some : st.entries ≠ [] := by
    intro none
    simp [none] at here
  rw [MemStorage.entryAt, plain.firstIndex_cons some, if_pos (by omega)]
  exact here

/-- Match index truth for tame runs without compaction and restarts. -/
theorem match_index_truth (cfg : ClusterConfig) (rng : Nat → Nat → Nat) (events : List ClusterEvent)
    (lasting : ∀ e ∈ events, Cluster.isLasting e = true)
    (tame : Runs.Along (Cluster.step cfg) Cluster.Tame (Cluster.init cfg rng) events) :
    MatchIndexTrue (Cluster.exec cfg (Cluster.init cfg rng) events) := by
  have run : ∃ s, ClusterSim cfg s (Cluster.exec cfg (Cluster.init cfg rng) events) ∧
      AllBacked s (Cluster.exec cfg (Cluster.init cfg rng) events) := by
    refine Runs.invariant _ (fun c => ∃ s, ClusterSim cfg s c ∧ AllBacked s c) ?_
      ⟨_, .init cfg rng, .init cfg rng⟩ (Runs.along_and _ lasting tame)
    rintro c e ⟨s, sim, all⟩ ⟨lasting, tame⟩
    obtain ⟨s', ext, sim'⟩ := sim.step lasting tame
    exact ⟨s', sim', all.step sim lasting tame ext sim'⟩
  obtain ⟨s, sim, all⟩ := run
  intro n q r rq p i e up role tracked bound here own upq low
  have core := sim.core up
  have coreq := sim.core upq
  rw [core.layered.heldAt] at here
  split at here
  · cases here
  rename_i positive
  have counts : r.Counts q i := ⟨role, by omega, p, e, tracked, bound, here, own⟩
  have credit : (Cluster.exec cfg (Cluster.init cfg rng) events).Credits q r.term i := .inr ⟨n, r, up, rfl, counts⟩
  -- An acknowledgement of the term of the leader was given in that term.
  have reached := sim.inv.ackedTerm q r.term (by have := sim.credits_le credit; omega)
  rw [coreq.term] at reached
  have same : rq.term = r.term := by omega
  unfold Cluster.raft? at upq
  split at upq
  · rename_i node phase there
    cases upq
    have agree := ((all q node phase there).counted i (same ▸ credit)).1
    rw [same, (core.leads role).2] at agree
    refine coreq.layered.plain.entryAt (by omega) ?_
    rw [agree.get (by omega)]
    exact here
  · cases upq

theorem firstCommit_match_index :
    MatchIndexTrue (Cluster.exec threeNodes (Cluster.init threeNodes (fun _ _ => 0)) firstCommit) :=
  match_index_truth _ _ _ (by decide +kernel) (by decide +kernel)

/-- After `firstCommit` the first append of leader 2 reaches node 3 late and cuts off the
proposal that node 3 has saved and acknowledged. -/
def lateAppend : List ClusterEvent := [firstCommit, [.deliver 7], Cluster.round 3].flatten

def Cluster.isCrash : ClusterEvent → Bool
  | .crash _ => true
  | _ => false

theorem lateAppend_match_index :
    (∀ e ∈ lateAppend, Cluster.isLasting e = true ∧ Cluster.isCrash e = false) ∧
      ¬MatchIndexTrue (Cluster.exec threeNodes (Cluster.init threeNodes (fun _ _ => 0)) lateAppend) := by
  refine ⟨by decide +kernel, fun claim => ?_⟩
  have leader : ((Cluster.exec threeNodes (Cluster.init threeNodes (fun _ _ => 0)) lateAppend).raft? 2).map
      (fun r => (r.state, r.term, (r.trk.progress 3).map Progress.matchIndex, r.raftLog.heldAt 2)) =
        some (.leader, 1, some 2, some ⟨2, 1, [7]⟩) := by
    decide +kernel
  have counted : ((Cluster.exec threeNodes (Cluster.init threeNodes (fun _ _ => 0)) lateAppend).raft? 3).map
      (fun r => (r.term, r.raftLog.storage.entryAt 2)) = some (1, none) := by
    decide +kernel
  obtain ⟨r, up, here⟩ := Option.map_eq_some_iff.mp leader
  obtain ⟨r', up', there⟩ := Option.map_eq_some_iff.mp counted
  simp only [Prod.mk.injEq] at here there
  obtain ⟨role, term, matched, entry⟩ := here
  obtain ⟨p, tracked, index⟩ := Option.map_eq_some_iff.mp matched
  have stored := claim 2 3 r r' p 2 _ up role tracked (by omega) entry term.symm up' (by omega)
  rw [there.2] at stored
  cases stored

end Kvgo

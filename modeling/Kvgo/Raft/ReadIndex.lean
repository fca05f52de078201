import Kvgo.Raft.ReadWatch
import Kvgo.Raft.StateMachine

/-! Linearizable reads: the index with which a read is answered reaches everything that any
leader had committed before the read was made. Two conditions are needed. The contexts of the
reads that leaders take up are new, since the queue tells requests apart by their context alone;
and the leader that takes up the read has committed an entry of its term, since a read that is
kept until then is answered by the commit, without a heartbeat round. -/

namespace Kvgo

def ClusterEvent.asks (ctx : Bytes) : ClusterEvent → Bool
  | .readIndex _ ctx' => ctx' == ctx
  | _ => false

namespace Cluster

def node? (c : Cluster) (id : Nat) : Option Node :=
  match c.procs id with
  | .up node _ => some node
  | .down _ _ => none

def readStates (c : Cluster) (id : Nat) : List ReadState :=
  (c.node? id).elim [] (fun node => node.r.readStates ++ node.rd.readStates)

def answersFor (ctx : Bytes) (msg : Message) : Bool := msg.type == .msgHeartbeatResp && msg.context == ctx

def inUse (cfg : ClusterConfig) (c : Cluster) (ctx : Bytes) : Bool :=
  c.packets.any (fun p => answersFor ctx p.msg) || cfg.voters.any (fun id => (c.node? id).elim false (fun node =>
    (node.r.held ++ node.rd.messages).any (answersFor ctx) || (node.r.readOnly.pendingReadIndex ctx).isSome))

/-- The reads that leaders take up have contexts that were not in use in `start`, and a leader
that takes up a read under `ctx` has committed an entry of its term. -/
def AsksAnew (cfg : ClusterConfig) (start : Cluster) (ctx : Bytes) (c : Cluster) (e : ClusterEvent) : Prop :=
  ∀ call ∈ c.stepCalls e, call.2.type = .msgReadIndex → call.1.state = .leader →
    start.inUse cfg call.2.context = false ∧
      (call.2.context = ctx → call.1.committedEntryInCurrentTerm.toOption ≠ some false)

instance (cfg : ClusterConfig) (start : Cluster) (ctx : Bytes) (c : Cluster) (e : ClusterEvent) :
    Decidable (AsksAnew cfg start ctx c e) := by
  unfold AsksAnew; infer_instance

variable {c : Cluster} {e : ClusterEvent}

theorem node_eq_some {id : Nat} {node : Node} (here : c.node? id = some node) : ∃ phase, c.procs id = .up node phase := by
  unfold node? at here
  split at here
  · rename_i node' phase up
    exact ⟨phase, Option.some.inj here ▸ up⟩
  · cases here

/-- Where the message of a call comes from. -/
theorem call_origin {call : Raft × Message} (inside : call ∈ c.stepCalls e) :
    ∃ id node phase, c.procs id = .up node phase ∧ (call.2 ∈ node.stepsOnAdvance ∨
      call.1 = node.r ∧ ((∃ p ∈ c.packets, call.2 = p.msg) ∨
        call.2.term = 0 ∧ isRequest call.2 ∧ (call.2.type = .msgReadIndex → e.asks call.2.context = true))) := by
  unfold stepCalls at inside
  split at inside
  · cases inside
  rename_i id arm aimed
  split at inside
  · cases inside
  rename_i node phase up
  split at inside
  · cases inside
  refine ⟨id, node, phase, up, ?_⟩
  by_cases last : arm = .advance
  · subst last
    left
    simp only [Node.stepCalls] at inside
    split at inside
    · exact callsFrom_mem inside
    · cases inside
  obtain ⟨start, ⟨_, p, _, found, _, same⟩ | request⟩ := calls_cases aimed last inside
  · exact .inr ⟨start, .inl ⟨p, List.mem_of_getElem? found, same⟩⟩
  by_cases packet : ∃ p ∈ c.packets, call.2 = p.msg
  · exact .inr ⟨start, .inl packet⟩
  refine .inr ⟨start, .inr ⟨request.1, request, fun kind => ?_⟩⟩
  cases e with
  | deliver position =>
    obtain ⟨p, found, same⟩ := Option.map_eq_some_iff.mp aimed
    cases same
    simp only [Node.stepCalls] at inside
    split at inside
    · cases inside
    · cases List.mem_singleton.mp inside
      exact absurd ⟨p, List.mem_of_getElem? found, rfl⟩ packet
  | readIndex id' ctx =>
    cases aimed
    cases List.mem_singleton.mp inside
    exact beq_self_eq_true ctx
  | tick => cases aimed; cases inside
  | campaign | propose | transfer =>
    cases aimed
    cases List.mem_singleton.mp inside
    cases kind
  | advance =>
    cases aimed
    exact absurd rfl last
  | ready | save | send | compact | crash | restart => cases aimed

end Cluster

namespace Watch

variable {w : Watch} {cfg : ClusterConfig} {s s' : History} {c : Cluster} {e : ClusterEvent}

/-! ### One step -/

structure Whole (w : Watch) (c : Cluster) : Prop where
  nodes : ∀ n node phase, c.procs n = .up node phase → w.Host n node
  packets : ∀ p ∈ c.packets, w.Honest p.msg

theorem Whole.setProc (whole : w.Whole c) {id : Nat} {proc : Proc} (arrived : List Nat)
    (delivered : List (Nat × Entry)) (up : ∀ node phase, proc = .up node phase → w.Host id node) :
    w.Whole { c.setProc id proc with arrived, delivered } := by
  refine ⟨fun n node phase here => ?_, whole.packets⟩
  by_cases same : n = id
  · subst same
    exact up node phase (by simpa [Cluster.setProc] using here)
  · exact whole.nodes n node phase (by simpa [Cluster.setProc, same] using here)

theorem Host.ran {n : Nat} {node : Node} {phase : Phase} {arm : Node.Event} {proc : Proc} (host : w.Host n node)
    (ran : Cluster.Ran node phase arm proc) (each : ∀ call ∈ node.stepCalls arm, w.Call call.1 call.2) :
    ∀ node' phase', proc = .up node' phase' → w.Host n node' := by
  intro node' phase' here
  cases ran with
  | panicked => cases here
  | panickedAfter => cases here
  | ok mid _ selected top =>
    cases here
    exact (host.selected each selected).loopTop top

theorem Whole.step (whole : w.Whole c) (lasting : Cluster.isLasting e = true)
    (calls : ∀ call ∈ c.stepCalls e, w.Call call.1 call.2) : w.Whole (Cluster.step cfg c e) := by
  have stepped := Cluster.step_cases cfg c e
  unfold Cluster.stepCalls at calls
  generalize Cluster.step cfg c e = c' at stepped
  cases stepped with
  | skip e arrived => exact { whole with }
  | ran e arrived id node phase arm proc up aimed ordinary ran =>
    simp only [aimed, up, ordinary.2, false_and, if_false] at calls
    exact whole.setProc arrived c.delivered ((whole.nodes id node phase up).ran ran calls)
  | ready id node proc up enabled ran =>
    refine whole.setProc c.arrived _ ((whole.nodes id node .idle up).ran ran ?_)
    simp [Node.stepCalls]
  | advance id node proc up ran =>
    simp only [Cluster.target, up, ne_eq, not_true, and_false, if_false] at calls
    exact whole.setProc c.arrived c.delivered ((whole.nodes id node .sent up).ran ran calls)
  | save id node storage err up saved =>
    refine whole.setProc c.arrived c.delivered (fun node' phase' same => ?_)
    cases same
    exact (whole.nodes id node .accepted up).withStorage storage
  | send id node up =>
    have host := whole.nodes id node .saved up
    have moved : w.Whole (c.setProc id (.up node .sent)) := by
      refine whole.setProc c.arrived c.delivered (fun node' phase' same => ?_)
      cases same
      exact host
    refine ⟨moved.nodes, fun p inside => ?_⟩
    rcases List.mem_append.mp inside with old | new
    · exact whole.packets p old
    · obtain ⟨msg, lent, rfl⟩ := List.mem_map.mp new
      exact host.lent msg lent
  | compact id index => simp [Cluster.isLasting] at lasting
  | halt e id node phase cause up kind => exact whole.setProc c.arrived c.delivered (by simp)
  | restart id rng => simp [Cluster.isLasting] at lasting

/-! ### The moment in the history -/

/-- The history knows of the leader of the moment and of what it had committed. -/
structure Since (w : Watch) (s : History) : Prop where
  leads : s.leader w.term = some w.leader
  safe : ∃ L, L.length = w.index ∧ TermLog.Safe w.voters s w.term L

theorem Since.ext (since : w.Since s) (inv : TermLog.Inv Entry.term w.voters s) (ext : TermLog.Ext s s') :
    w.Since s' :=
  ⟨ext.leader _ _ since.leads, since.safe.imp fun _ => And.imp_right (inv.safe_ext ext)⟩

/-- A leader that has committed an entry of its term has committed what earlier leaders had. -/
theorem Since.level (since : w.Since s) (inv : TermLog.Inv Entry.term w.voters s) {n : Nat} {r : Raft}
    (sim : Raft.Sim w.voters s n r) (core : w.Core n r) (role : r.state = .leader)
    (current : r.committedEntryInCurrentTerm = .ok true) (later : w.term ≤ r.term) :
    w.index ≤ r.raftLog.committed := by
  obtain ⟨leads, log⟩ := sim.leads role
  rcases later.eq_or_lt with same | later
  · have known := since.leads
    rw [same, leads] at known
    exact core.log (Option.some.inj known)
  · obtain ⟨L, size, safe⟩ := since.safe
    have below := inv.safe_base safe (by simp [leads]) later
    have own : termAt r.raftLog.view r.raftLog.committed = some r.term := by
      have matched : r.committedEntryInCurrentTerm = _ := sim.layered.matchTerm sim.layered.committed
      simpa using current.symm.trans matched
    obtain ⟨_, stood, _⟩ := inv.led _ _ leads
    have positive := (inv.stood _ _ _ stood).2.1
    rcases Nat.eq_zero_or_pos r.raftLog.committed with zero | some
    · rw [zero, termAt_zero] at own
      have := Option.some.inj own
      omega
    · rw [termAt_pos some] at own
      obtain ⟨entry, here, term⟩ := Option.map_eq_some_iff.mp own
      rw [← log] at here
      have early := (inv.own _ _ _ here).2
      omega

/-! ### The calls of a step -/

theorem Whole.calls (whole : w.Whole c) (sim : ClusterSim cfg s c) (same : w.voters = cfg.voters)
    (since : w.index = 0 ∨ w.Since s) (tame : Cluster.Tame c e) (asked : e.asks w.ctx = true → w.asked)
    (fresh : ∀ call ∈ c.stepCalls e, call.2.type = .msgReadIndex → call.1.state = .leader →
      ¬w.used call.2.context ∧ (call.2.context = w.ctx → call.1.committedEntryInCurrentTerm ≠ .ok false)) :
    ∀ call ∈ c.stepCalls e, w.Call call.1 call.2 := by
  intro call inside
  obtain ⟨id, node, phase, up, origin⟩ := Cluster.call_origin inside
  have current := (tame call inside).current
  have fresh := fresh call inside
  have host := whole.nodes id node phase up
  have hostSim := (sim.hosts id node phase up).1
  rcases origin with own | ⟨start, source⟩
  · -- the messages a node steps on `Advance` are no reads
    obtain ⟨honest, kind⟩ := host.steps call.2 own
    have other : call.2.type ≠ .msgReadIndex := by
      intro read
      simp [read, afterAppend] at kind
    exact ⟨honest, current, (hostSim.steps call.2 own).ok.noSnap, fun read => absurd read other,
      fun read => absurd read other, fun read => absurd read other⟩
  · have level : call.2.type = .msgReadIndex → call.1.state = .leader →
        call.1.committedEntryInCurrentTerm = .ok true → w.term ≤ call.1.term → w.index ≤ call.1.raftLog.committed := by
      intro _ role current later
      rw [start] at role current later ⊢
      rcases since with zero | since
      · omega
      · have core := hostSim.core
        rw [← same] at core
        exact since.level (same ▸ sim.inv) core host.core role current later
    have rest : w.Honest call.2 ∧ call.2.type ≠ .msgSnap := by
      rcases source with ⟨p, sent, packet⟩ | ⟨_, ⟨_, kind⟩, asks⟩
      · rw [packet]
        exact ⟨whole.packets p sent, (sim.packets p sent).noSnap⟩
      · refine ⟨⟨fun read mine => asked (mine ▸ asks read), fun beat => ?_, fun answer => ?_⟩, fun snap => ?_⟩
        · simp [beat] at kind
        · simp [answer] at kind
        · simp [snap] at kind
    exact ⟨rest.1, current, rest.2, fun read role => (fresh read role).1, fun read role => (fresh read role).2, level⟩

/-! ### The start of the watch -/

def before (w : Watch) : Watch :=
  { w with
    asked := False
    used := fun _ => False
    floor := fun _ => 0
    term := 0
    index := 0
    elected := w.elected.mono (fun _ _ _ => le_rfl) }

theorem core_of_fresh {n : Nat} {rng : Nat → Nat} {r : Raft} (same : w.voters = cfg.voters) (voter : n ∈ cfg.voters)
    (fresh : Raft.Fresh (Cluster.nodeConfig cfg n {} rng) r) : w.before.Core n r := by
  have electorate : r.trk.voters.ids.Perm cfg.voters := by
    rw [fresh.voters]
    exact Cluster.buildMajorityConfig_perm cfg voter
  refine ⟨fresh.id, same ▸ voter, same ▸ electorate, fun v inside => ?_, Nat.zero_le _, fun _ => Nat.zero_le _, ?_, ?_, ?_,
    ?_, ?_⟩
  · rw [fresh.ids v]
    have known : v ∈ cfg.voters := same ▸ inside
    by_cases self : v = n
    · exact .inr self
    · exact .inl (by simp [Cluster.nodeConfig, known, self])
  · rw [fresh.readOnly]
    exact queue_new _ _
  · simp [fresh.pendingReadIndexRequests]
  · simp [fresh.readStates]
  · simp [Raft.held, fresh.messages, fresh.msgsAfterAppend]
  · simp [fresh.msgsAfterAppend]

theorem whole_init (same : w.voters = cfg.voters) (rng : Nat → Nat → Nat) :
    w.before.Whole (Cluster.init cfg rng) := by
  refine ⟨fun n node phase up => ?_, by simp [Cluster.init]⟩
  simp only [Cluster.init] at up
  split at up
  · rename_i voter
    obtain ⟨rfl, r, fresh, top⟩ := Cluster.boot_up up
    have blank : w.before.Host n { r } := ⟨core_of_fresh same voter fresh, by simp, by simp, by simp⟩
    exact blank.loopTop top
  · cases up

/-- The watch starts when the read has not been made. -/
theorem Whole.start (whole : w.before.Whole c) (asked : w.asked) (same : w.voters = cfg.voters)
    (used : ∀ y, c.inUse cfg y = true → w.used y)
    (terms : ∀ n node phase, c.procs n = .up node phase → w.floor n ≤ node.r.term)
    (lead : ∀ node phase, c.procs w.leader = .up node phase → w.index ≤ node.r.raftLog.committed) : w.Whole c := by
  have quiet : ∀ msg, w.before.Honest msg → (Cluster.answersFor msg.context msg = true → w.used msg.context) →
      w.Honest msg := by
    intro msg honest known
    refine ⟨fun _ _ => asked, fun beat new => absurd (known ?_) new, fun answer mine => ?_⟩
    · simp [Cluster.answersFor, beat]
    · exact (honest.answer answer mine).1.elim
  refine ⟨fun n node phase up => ?_, fun p sent => quiet _ (whole.packets p sent) fun answers => used _ ?_⟩
  · obtain ⟨core, lent, states, steps⟩ := whole.nodes n node phase up
    have here : c.node? n = some node := by simp [Cluster.node?, up]
    have inside : n ∈ cfg.voters := same ▸ core.member
    have busy : ∀ y, (node.r.held ++ node.rd.messages).any (Cluster.answersFor y) = true ∨
        (node.r.readOnly.pendingReadIndex y).isSome = true → w.used y := by
      intro y some
      refine used y ?_
      simp only [Cluster.inUse, Bool.or_eq_true, List.any_eq_true]
      refine .inr ⟨n, inside, ?_⟩
      rw [here]
      simpa [List.any_eq_true] using some
    have said : ∀ msg ∈ node.r.held ++ node.rd.messages, Cluster.answersFor msg.context msg = true → w.used msg.context :=
      fun msg there answers => busy _ (.inl (List.any_eq_true.mpr ⟨msg, there, answers⟩))
    have unqueued : ∀ rs, node.r.readOnly.pendingReadIndex w.ctx ≠ some rs :=
      fun rs there => (core.queue.waits rs there).1
    refine ⟨⟨core.id, core.member, core.electorate, core.ids, terms n node phase up, ?_, ⟨core.queue.holds, ?_, ?_, ?_⟩,
      core.parked, fun st listed mine => (core.states st listed mine).1.elim, ?_, core.after⟩, ?_, ?_, ?_⟩
    · rintro rfl
      exact lead node phase up
    · intro y rs there new
      exact absurd (busy y (.inr (by rw [there]; rfl))) new
    · intro rs there
      exact absurd there (unqueued rs)
    · intro front back split
      obtain ⟨rs, there⟩ := core.queue.listed (y := w.ctx) (by rw [split]; simp)
      exact absurd there (unqueued rs)
    · exact fun msg there => quiet msg (core.held msg there) (said msg (List.mem_append_left _ there))
    · exact fun msg there => quiet msg (lent msg there) (said msg (List.mem_append_right _ there))
    · exact fun st listed mine => (states st listed mine).1.elim
    · intro msg there
      obtain ⟨honest, kind⟩ := steps msg there
      refine ⟨quiet msg honest fun answers => ?_, kind⟩
      simp only [Cluster.answersFor, Bool.and_eq_true, beq_iff_eq] at answers
      simp [answers.1, afterAppend] at kind
  · simp only [Cluster.inUse, Bool.or_eq_true, List.any_eq_true]
    exact .inl ⟨p, sent, answers⟩

/-- A leader of the cluster makes a moment to watch from. -/
theorem exists_moment (sim : ClusterSim cfg s c) (ctx : Bytes) {leader : Nat} {r : Raft} (up : c.raft? leader = some r)
    (leads : r.state = .leader) : ∃ w : Watch, w.voters = cfg.voters ∧ w.ctx = ctx ∧ w.asked ∧
      (∀ y, w.used y → c.inUse cfg y = true) ∧ w.index = r.raftLog.committed ∧ w.Since s ∧
      (w.before.Whole c → w.Whole c) := by
  obtain ⟨node, phase, here, rfl⟩ := raft_eq_some up
  have host := (sim.hosts leader node phase here).1
  have elected : Majority cfg.voters (fun q => node.r.term ≤ s.term q) := by
    obtain ⟨_, _, _, _, most⟩ := sim.inv.led _ _ (host.core.leads leads).1
    exact most.mono (fun q _ vote => (sim.inv.voted q _ _ vote).1)
  refine ⟨⟨cfg.voters, ctx, True, fun y => c.inUse cfg y = true, s.term, leader, node.r.term,
    node.r.raftLog.committed, host.member, elected⟩, rfl, rfl, trivial, fun _ busy => busy, rfl,
    ⟨(host.core.leads leads).1, _, ?_, host.core.safe⟩, fun whole => ?_⟩
  · rw [List.length_take, Nat.min_eq_left host.core.layered.committed]
  · refine whole.start trivial rfl (fun _ busy => busy) (fun q other phase up => ?_) (fun other phase up => ?_)
    · exact (sim.hosts q other phase up).1.core.term.le
    · rw [here] at up
      cases up
      exact le_rfl

theorem Whole.readStates (whole : w.Whole c) {n : Nat} {st : ReadState} (answered : st ∈ c.readStates n)
    (mine : st.requestCtx = w.ctx) : w.Good st.index := by
  unfold Cluster.readStates at answered
  cases there : c.node? n with
  | none =>
    rw [there] at answered
    cases answered
  | some node =>
    rw [there] at answered
    obtain ⟨phase, up⟩ := Cluster.node_eq_some there
    have host := whole.nodes n node phase up
    rcases List.mem_append.mp answered with kept | lent
    · exact host.core.states st kept mine
    · exact host.states st lent mine

/-! ### Whole runs -/

theorem Whole.unasked (whole : w.before.Whole c) (same : w.voters = cfg.voters) (sim : ClusterSim cfg s c)
    (silent : e.asks w.ctx = false) (lasting : Cluster.isLasting e = true) (tame : Cluster.Tame c e) :
    w.before.Whole (Cluster.step cfg c e) := by
  have unasked : ¬e.asks w.ctx = true := by simp [silent]
  refine whole.step lasting (whole.calls sim same (.inl rfl) tame (fun asks => absurd asks unasked) ?_)
  intro call inside kind _
  refine ⟨id, fun mine => ?_⟩
  -- a read under the context would have been made by now
  obtain ⟨id, node, phase, up, own | ⟨_, ⟨p, sent, packet⟩ | ⟨_, _, asks⟩⟩⟩ := Cluster.call_origin inside
  · exact (((whole.nodes id node phase up).steps call.2 own).1.ask kind mine).elim
  · exact ((whole.packets p sent).ask (packet ▸ kind) (packet ▸ mine)).elim
  · exact absurd (mine ▸ asks kind) unasked

theorem Whole.asked (whole : w.Whole c) (asked : w.asked) (same : w.voters = cfg.voters) (since : w.Since s)
    (sim : ClusterSim cfg s c) {start : Cluster} (used : ∀ y, w.used y → start.inUse cfg y = true)
    (anew : Cluster.AsksAnew cfg start w.ctx c e) (lasting : Cluster.isLasting e = true) (tame : Cluster.Tame c e) :
    w.Whole (Cluster.step cfg c e) := by
  refine whole.step lasting (whole.calls sim same (.inr since) tame (fun _ => asked) ?_)
  intro call inside kind role
  obtain ⟨fresh, prompt⟩ := anew call inside kind role
  refine ⟨fun old => ?_, fun mine parked => prompt mine ?_⟩
  · rw [used _ old] at fresh
    cases fresh
  · rw [parked]
    rfl

theorem before_exec (same : w.voters = cfg.voters) {rng : Nat → Nat → Nat} {events : List ClusterEvent}
    (lasting : ∀ e ∈ events, Cluster.isLasting e = true) (new : ∀ e ∈ events, e.asks w.ctx = false)
    (tame : Runs.Along (Cluster.step cfg) Cluster.Tame (Cluster.init cfg rng) events) :
    w.before.Whole (Cluster.exec cfg (Cluster.init cfg rng) events) := by
  have run := Runs.along_and _ new (Runs.along_and _ lasting tame)
  refine (Runs.invariant _ (fun c => w.before.Whole c ∧ ∃ s, ClusterSim cfg s c) ?_
    ⟨whole_init same rng, _, .init cfg rng⟩ run).1
  rintro c e ⟨whole, s, sim⟩ ⟨silent, lasting, tame⟩
  obtain ⟨s', _, sim'⟩ := sim.step lasting tame
  exact ⟨whole.unasked same sim silent lasting tame, s', sim'⟩

theorem after_exec (since : w.Since s) (same : w.voters = cfg.voters) {start : Cluster}
    (used : ∀ y, w.used y → start.inUse cfg y = true) (sim : ClusterSim cfg s start) (whole : w.Whole start)
    (asked : w.asked) {events : List ClusterEvent} (lasting : ∀ e ∈ events, Cluster.isLasting e = true)
    (tame : Runs.Along (Cluster.step cfg) Cluster.Tame start events)
    (anew : Runs.Along (Cluster.step cfg) (Cluster.AsksAnew cfg start w.ctx) start events) :
    w.Whole (Cluster.exec cfg start events) := by
  have run := Runs.along_and _ lasting (Runs.along_both _ tame anew)
  suffices kept : ∃ s', w.Since s' ∧ ClusterSim cfg s' (Cluster.exec cfg start events) ∧
      w.Whole (Cluster.exec cfg start events) from kept.choose_spec.2.2
  refine Runs.invariant _ (fun c => ∃ s', w.Since s' ∧ ClusterSim cfg s' c ∧ w.Whole c) ?_ ⟨s, since, sim, whole⟩ run
  rintro c e ⟨s', since, sim, whole⟩ ⟨lasting, tame, anew⟩
  obtain ⟨s'', ext, sim'⟩ := sim.step lasting tame
  exact ⟨s'', since.ext (same ▸ sim.inv) ext, sim', whole.asked asked same since sim used anew lasting tame⟩

end Watch

/-- A read that is made under a new context is answered with an index that every leader up to
then has reached: `before` is any part of the run in which the read has not been made. -/
theorem reads_see_earlier_commits (cfg : ClusterConfig) (rng : Nat → Nat → Nat) (before after : List ClusterEvent)
    (ctx : Bytes) (lasting : ∀ e ∈ before ++ after, Cluster.isLasting e = true)
    (tame : Runs.Along (Cluster.step cfg) Cluster.Tame (Cluster.init cfg rng) (before ++ after))
    (new : ∀ e ∈ before, e.asks ctx = false)
    (anew : Runs.Along (Cluster.step cfg)
      (Cluster.AsksAnew cfg (Cluster.exec cfg (Cluster.init cfg rng) before) ctx)
      (Cluster.exec cfg (Cluster.init cfg rng) before) after)
    {leader : Nat} {r : Raft} (up : (Cluster.exec cfg (Cluster.init cfg rng) before).raft? leader = some r)
    (leads : r.state = .leader) {n : Nat} {st : ReadState}
    (answered : st ∈ (Cluster.exec cfg (Cluster.init cfg rng) (before ++ after)).readStates n)
    (mine : st.requestCtx = ctx) : r.raftLog.committed ≤ st.index := by
  obtain ⟨tameBefore, tameAfter⟩ := (Runs.along_append _ _ _ _ _).mp tame
  have early : ∀ e ∈ before, Cluster.isLasting e = true := fun e inside => lasting e (List.mem_append_left _ inside)
  have late : ∀ e ∈ after, Cluster.isLasting e = true := fun e inside => lasting e (List.mem_append_right _ inside)
  obtain ⟨s, sim⟩ := exists_sim early tameBefore
  rw [show Cluster.exec cfg (Cluster.init cfg rng) (before ++ after) =
    Cluster.exec cfg (Cluster.exec cfg (Cluster.init cfg rng) before) after from Runs.exec_append _ _ _ _] at answered
  have unasked (w : Watch) (same : w.voters = cfg.voters) (new : ∀ e ∈ before, e.asks w.ctx = false) :
      w.before.Whole (Cluster.exec cfg (Cluster.init cfg rng) before) := Watch.before_exec same early new tameBefore
  change Runs.Along _ _ (Cluster.exec cfg (Cluster.init cfg rng) before) after at tameAfter
  generalize Cluster.exec cfg (Cluster.init cfg rng) before = start at *
  obtain ⟨w, same, rfl, asked, used, index, since, begins⟩ := Watch.exists_moment sim ctx up leads
  have whole := begins (unasked w same new)
  have done := Watch.after_exec since same used sim whole asked late tameAfter anew
  rw [← index]
  exact (done.readStates answered mine).2

/-- A client of node 3 reads after `firstCommit`: the leader queues the read, and node 3, which answers its
heartbeat, is told the index. -/
def followerRead : List ClusterEvent :=
  [[.readIndex 3 [9]], Cluster.round 3, [.deliver 11], Cluster.round 2, [.deliver 13], Cluster.round 3, [.deliver 14],
    Cluster.round 2, [.deliver 15]].flatten

theorem followerRead_current :
    ((Cluster.exec threeNodes (Cluster.init threeNodes (fun _ _ => 0)) firstCommit).raft? 2).map
        (fun r => (r.state, r.raftLog.committed)) = some (.leader, 2) ∧
      ⟨2, [9]⟩ ∈ (Cluster.exec threeNodes (Cluster.init threeNodes (fun _ _ => 0)) (firstCommit ++ followerRead)).readStates 3 ∧
      ∀ r, (Cluster.exec threeNodes (Cluster.init threeNodes (fun _ _ => 0)) firstCommit).raft? 2 = some r →
        r.state = .leader → r.raftLog.committed ≤ 2 := by
  have answered : ⟨2, [9]⟩ ∈
      (Cluster.exec threeNodes (Cluster.init threeNodes (fun _ _ => 0)) (firstCommit ++ followerRead)).readStates 3 := by
    decide +kernel
  refine ⟨by decide +kernel, answered, fun r up leads => ?_⟩
  exact reads_see_earlier_commits threeNodes (fun _ _ => 0) firstCommit followerRead [9] (by decide +kernel)
    (by decide +kernel) (by decide +kernel) (by decide +kernel) up leads answered rfl

/-- Node 2, elected in term 1, has not heard that its first entry reached the others. They elect node 3
in term 2, which commits an entry of its own. -/
def deposed : List ClusterEvent :=
  [firstElection, [.deliver 6], Cluster.round 1, [.deliver 7], Cluster.round 3, [.campaign 3], Cluster.round 3,
    [.deliver 10], Cluster.round 1, [.deliver 12], Cluster.round 3, [.deliver 13], Cluster.round 1, [.deliver 15],
    Cluster.round 3, [.deliver 16], Cluster.round 1, [.deliver 18], Cluster.round 3].flatten

/-- A read at node 2 is then kept, and the old answer of node 3 commits the first entry and
answers the read with it. -/
def parkedRead : List ClusterEvent := [.readIndex 2 [9], .deliver 9]

theorem parkedRead_stale :
    (∀ e ∈ deposed ++ parkedRead, Cluster.isLasting e = true) ∧
      Runs.Along (Cluster.step threeNodes) Cluster.Tame (Cluster.init threeNodes (fun _ _ => 0)) (deposed ++ parkedRead) ∧
      (∀ e ∈ deposed, e.asks [9] = false) ∧
      ((Cluster.exec threeNodes (Cluster.init threeNodes (fun _ _ => 0)) deposed).raft? 3).map
        (fun r => (r.state, r.raftLog.committed)) = some (.leader, 2) ∧
      ⟨1, [9]⟩ ∈ (Cluster.exec threeNodes (Cluster.init threeNodes (fun _ _ => 0)) (deposed ++ parkedRead)).readStates 2 := by
  decide +kernel

end Kvgo

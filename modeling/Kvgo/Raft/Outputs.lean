import Kvgo.Raft.Boot
import Kvgo.Raft.Replication

/-! The output of a node: the messages to peers and the read states that its state machine
produces, and the `Ready`s in which its host takes them. -/

namespace Kvgo

namespace Raft

def toPeers (id : Nat) (msgs : List Message) : List Message := msgs.filter (fun m => decide (m.toId ≠ id))

structure Grows (r r' : Raft) : Prop where
  id : r'.id = r.id
  messages : r.messages <+: r'.messages
  msgsAfterAppend : r.msgsAfterAppend <+: r'.msgsAfterAppend
  readStates : r.readStates <+: r'.readStates

theorem Grows.refl (r : Raft) : Grows r r :=
  ⟨rfl, List.prefix_refl _, List.prefix_refl _, List.prefix_refl _⟩

theorem Grows.trans {r r' r'' : Raft} (first : Grows r r') (second : Grows r' r'') : Grows r r'' where
  id := second.id.trans first.id
  messages := first.messages.trans second.messages
  msgsAfterAppend := first.msgsAfterAppend.trans second.msgsAfterAppend
  readStates := first.readStates.trans second.readStates

theorem Grows.of_eq {r r' : Raft} (id : r'.id = r.id) (messages : r'.messages = r.messages)
    (after : r'.msgsAfterAppend = r.msgsAfterAppend) (reads : r'.readStates = r.readStates) : Grows r r' :=
  ⟨id, by rw [messages], by rw [after], by rw [reads]⟩

theorem grows_enqueue (r : Raft) (msg : Message) : Grows r (r.enqueue msg) := by
  refine ⟨by simp, ?_, ?_, by simp⟩ <;> unfold enqueue <;> split <;> simp

theorem grows_answerAll (r : Raft) (reqs : List (Message × Nat)) : Grows r (r.answerAll reqs) :=
  ⟨rfl, List.prefix_append _ _, List.prefix_refl _, List.prefix_append _ _⟩

theorem grows_appendEntry {r r' : Raft} {data : Bytes} (ok : r.appendEntry data = .ok r') : Grows r r' := by
  obtain ⟨raftLog, _, rfl⟩ := appendEntry_eq ok
  have same : Grows r ({ r with draws := r.draws + 1, raftLog } : Raft) := .of_eq rfl rfl rfl rfl
  exact same.trans (grows_enqueue _ _)

theorem grows_becomeFollower (r : Raft) (term lead : Nat) : Grows r (r.becomeFollower term lead) :=
  .of_eq (by simp) (by simp) (by simp) (by simp)

theorem Act.grows {r0 r r' : Raft} {m : Message} (act : Act r0 m r r') : Grows r r' := by
  have queued : ∀ {x : Raft} msg, Grows r x → Grows r (x.enqueue msg) :=
    fun msg same => same.trans (grows_enqueue _ msg)
  have answered : ∀ {x : Raft} reqs, Grows r x → Grows r (x.answerAll reqs) :=
    fun reqs same => same.trans (grows_answerAll _ reqs)
  cases act with
  | soft same => exact .of_eq same.id same.messages same.msgsAfterAppend same.readStates
  | emit => exact grows_enqueue _ _
  | resend => exact grows_enqueue _ _
  | follow => exact grows_becomeFollower _ _ _
  | yield => exact grows_becomeFollower _ _ _
  | abdicate => exact grows_becomeFollower _ _ _
  | candidacy => refine .of_eq ?_ ?_ ?_ ?_ <;> simp [becomeCandidate, recordVote]
  | lead role won taken appended =>
    have took := takeLead_spec taken
    exact (Grows.of_eq took.id took.messages took.msgsAfterAppend took.readStates).trans
      (grows_appendEntry appended)
  | propose data role appended => exact grows_appendEntry appended
  | grant => exact queued _ (.of_eq rfl rfl rfl rfl)
  | accept => exact queued _ (.of_eq rfl rfl rfl rfl)
  | refuse => exact grows_enqueue _ _
  | beat => exact queued _ (.of_eq rfl rfl rfl rfl)
  | drain => exact answered _ (.of_eq rfl rfl rfl rfl)
  | readSingle => exact grows_answerAll _ _
  | release => exact answered _ (.of_eq rfl rfl rfl rfl)
  | noteRead => exact ⟨rfl, List.prefix_refl _, List.prefix_refl _, List.prefix_append _ _⟩
  | _ => exact .of_eq rfl rfl rfl rfl

theorem Works.grows {calls : List (Raft × Message)} {r r' : Raft} (works : Works calls r r') : Grows r r' := by
  refine works.keeps (P := Grows r) (fun r1 r2 kept same => ?_) (fun r0 m r1 r2 _ _ kept act => ?_) (.refl r)
  · exact kept.trans (.of_eq same.id same.messages same.msgsAfterAppend same.readStates)
  · exact kept.trans act.grows

def newMessages (r r' : Raft) : List Message :=
  r'.messages.drop r.messages.length ++ toPeers r'.id (r'.msgsAfterAppend.drop r.msgsAfterAppend.length)

def newReadStates (r r' : Raft) : List ReadState := r'.readStates.drop r.readStates.length

theorem append_drop_of_isPrefix {α : Type*} {xs ys : List α} (sub : xs <+: ys) :
    ys = xs ++ ys.drop xs.length := by
  obtain ⟨rest, rfl⟩ := sub
  simp

theorem Grows.toPeers {r r' : Raft} (grows : Grows r r') :
    Raft.toPeers r.id r'.msgsAfterAppend = Raft.toPeers r.id r.msgsAfterAppend ++
      Raft.toPeers r.id (r'.msgsAfterAppend.drop r.msgsAfterAppend.length) := by
  conv_lhs => rw [append_drop_of_isPrefix grows.msgsAfterAppend]
  simp only [Raft.toPeers, List.filter_append]

end Raft

/-- A node with a record of what its state machine produced and of what its host took. -/
structure Ledger where
  node : Node
  ended : Bool := false
  /-- What `send` appended for peers. -/
  sent : List Message := []
  answered : List ReadState := []
  /-- What the accepted `Ready`s contained. -/
  taken : List Message := []
  takenReads : List ReadState := []

/-- An arm of the loop of the node, or anything its host does to the storage. -/
inductive LoopEvent where
  | arm (e : Node.Event)
  | host (storage : MemStorage)

namespace Ledger

def start (cfg : Config) : Except Panic Ledger := do
  let node ← Node.setupNode cfg
  .ok { node := ← node.loopTop }

def entry (node : Node) (e : Node.Event) : Raft :=
  if e = .accept ∧ node.readyc = true then node.accept.r
  else if e = .advance ∧ node.advancec = true then node.r.advance node.rd
  else node.r

def arm (l : Ledger) (e : Node.Event) : Ledger :=
  match l.node.select e with
  | .error _ => { l with ended := true }
  | .ok (mid, _) =>
    match mid.loopTop with
    | .error _ => { l with ended := true }
    | .ok node =>
      { l with
        node
        sent := l.sent ++ (entry l.node e).newMessages mid.r
        answered := l.answered ++ (entry l.node e).newReadStates mid.r
        taken := if e = .accept ∧ l.node.readyc = true then l.taken ++ l.node.rd.messages else l.taken
        takenReads :=
          if e = .accept ∧ l.node.readyc = true then l.takenReads ++ l.node.rd.readStates else l.takenReads }

def step (l : Ledger) : LoopEvent → Ledger
  | .arm e => if l.ended then l else l.arm e
  | .host storage => if l.ended then l else { l with node := Cluster.withStorage l.node storage }

/-- While the host holds a `Ready`, the event appends no message to `messages` and no read
state; `Advance` would discard them. -/
def Calm (l : Ledger) : LoopEvent → Prop
  | .host _ => True
  | .arm e => l.node.advancec = true → e ≠ .advance →
    match l.node.select e with
    | .error _ => True
    | .ok (mid, _) => mid.r.messages = l.node.r.messages ∧ mid.r.readStates = l.node.r.readStates

instance (l : Ledger) (e : LoopEvent) : Decidable (l.Calm e) := by
  cases e with
  | host => exact isTrue trivial
  | arm e =>
    unfold Calm
    have : Decidable (match l.node.select e with
      | .error _ => True
      | .ok (mid, _) => mid.r.messages = l.node.r.messages ∧ mid.r.readStates = l.node.r.readStates) := by
      split <;> infer_instance
    infer_instance

/-- The messages that no accepted `Ready` has contained and no `Advance` will discard. -/
def pending (node : Node) : List Message :=
  (if node.advancec then [] else node.r.messages) ++ Raft.toPeers node.r.id node.r.msgsAfterAppend

def pendingReads (node : Node) : List ReadState := if node.advancec then [] else node.r.readStates

/-- Each output is in one accepted `Ready` or waits for one, and what waits is in the next
`Ready` that the node offers. -/
structure Complete (l : Ledger) : Prop where
  messages : l.sent.Perm (l.taken ++ pending l.node)
  readStates : l.answered = l.takenReads ++ pendingReads l.node
  next : l.node.advancec = false → l.node.readyc = true →
    l.node.rd.messages = pending l.node ∧ l.node.rd.readStates = pendingReads l.node
  nothing : l.node.advancec = false → l.node.readyc = false → pending l.node = [] ∧ pendingReads l.node = []
  taking : l.node.advancec = true → l.node.readyc = false

theorem quiet_of_hasReady {node : Node} (none : node.hasReady = false) :
    node.r.messages = [] ∧ node.r.msgsAfterAppend = [] ∧ node.r.readStates = [] := by
  simp only [Node.hasReady, Raft.hasReady, Bool.or_eq_false_iff, Bool.not_eq_false', List.isEmpty_iff] at none
  tauto

theorem ready_outputs {node : Node} {rd : Ready} (idle : node.advancec = false) (ready : node.ready = .ok rd) :
    rd.messages = pending node ∧ rd.readStates = pendingReads node := by
  have shows := Node.ready_shows ready
  simp [pending, pendingReads, idle, Raft.toPeers, shows.messages, shows.readStates]

theorem Complete.loopTop {l : Ledger} {mid node : Node} (top : mid.loopTop = .ok node)
    (messages : l.sent.Perm (l.taken ++ pending mid)) (readStates : l.answered = l.takenReads ++ pendingReads mid)
    (stale : mid.advancec = false → mid.hasReady = false → mid.readyc = true →
      mid.rd.messages = [] ∧ mid.rd.readStates = [])
    (taking : mid.advancec = true → mid.readyc = false) : Complete { l with node } := by
  rcases Cluster.loopTop_cases top with ⟨rfl, still⟩ | ⟨idle, _, rd, ready, rfl⟩
  · have quiet : node.advancec = false → node.hasReady = false := fun idle => still.resolve_left (by simp [idle])
    have empty : node.advancec = false → pending node = [] ∧ pendingReads node = [] := by
      intro idle
      have none := quiet idle
      obtain ⟨now, after, reads⟩ := quiet_of_hasReady none
      simp [pending, pendingReads, idle, now, after, reads, Raft.toPeers]
    refine ⟨messages, readStates, fun idle offered => ?_, fun idle _ => empty idle, taking⟩
    obtain ⟨noMessages, noReads⟩ := stale idle (quiet idle) offered
    obtain ⟨noPending, noPendingReads⟩ := empty idle
    exact ⟨noMessages.trans noPending.symm, noReads.trans noPendingReads.symm⟩
  · refine ⟨messages, readStates, fun _ _ => ready_outputs idle ready, fun _ none => ?_, fun busy => ?_⟩
    · cases none
    · simp [idle] at busy

/-- An arm that works on the state machine only. -/
theorem Complete.work {l : Ledger} (complete : l.Complete) {mid node : Node} {taken : List Message}
    {takenReads : List ReadState} (grows : Raft.Grows l.node.r mid.r)
    (advancec : mid.advancec = l.node.advancec) (readyc : mid.readyc = l.node.readyc)
    (rdMessages : mid.rd.messages = l.node.rd.messages) (rdReads : mid.rd.readStates = l.node.rd.readStates)
    (calm : l.node.advancec = true → mid.r.messages = l.node.r.messages ∧ mid.r.readStates = l.node.r.readStates)
    (same : taken = l.taken) (sameReads : takenReads = l.takenReads) (top : mid.loopTop = .ok node) :
    Complete { l with
      node
      sent := l.sent ++ l.node.r.newMessages mid.r
      answered := l.answered ++ l.node.r.newReadStates mid.r
      taken
      takenReads } := by
  subst same sameReads
  refine Complete.loopTop (l := { l with
    sent := l.sent ++ l.node.r.newMessages mid.r
    answered := l.answered ++ l.node.r.newReadStates mid.r }) top ?_ ?_ (fun idle none offered => ?_)
    (fun busy => by rw [readyc]; exact complete.taking (advancec ▸ busy))
  · refine (complete.messages.append_right _).trans ?_
    rw [List.append_assoc]
    refine List.Perm.append_left _ ?_
    simp only [pending, Raft.newMessages, advancec, grows.id]
    rw [grows.toPeers]
    cases busy : l.node.advancec with
    | true => simp [(calm busy).1]
    | false =>
      have whole := Raft.append_drop_of_isPrefix grows.messages
      simp only [Bool.false_eq_true, if_false]
      conv_rhs => rw [whole]
      simp only [List.append_assoc]
      refine List.Perm.append_left _ ?_
      rw [← List.append_assoc, ← List.append_assoc]
      exact List.Perm.append_right _ List.perm_append_comm
  · simp only [complete.readStates, List.append_assoc, pendingReads, advancec, Raft.newReadStates]
    cases busy : l.node.advancec with
    | true => simp [(calm busy).2]
    | false => simp [← Raft.append_drop_of_isPrefix grows.readStates]
  · rw [advancec] at idle
    rw [readyc] at offered
    obtain ⟨now, after, reads⟩ := quiet_of_hasReady none
    obtain ⟨messages, readStates⟩ := complete.next idle offered
    have first := grows.messages
    have second := grows.msgsAfterAppend
    have third := grows.readStates
    rw [now, List.prefix_nil] at first
    rw [after, List.prefix_nil] at second
    rw [reads, List.prefix_nil] at third
    rw [rdMessages, rdReads, messages, readStates]
    simp [pending, pendingReads, idle, first, second, third, Raft.toPeers]

theorem withRaft_readStates (node : Node) (r : Raft) :
    (node.withRaft r).rd.readStates = node.rd.readStates := by
  unfold Node.withRaft
  split <;> rfl

theorem Complete.arm {l : Ledger} {e : Node.Event} (complete : l.Complete) (calm : l.Calm (.arm e)) :
    (l.arm e).Complete := by
  unfold Ledger.arm
  simp only [Calm] at calm
  split
  · exact ⟨complete.messages, complete.readStates, complete.next, complete.nothing, complete.taking⟩
  rename_i mid err done
  rw [done] at calm
  split
  · exact ⟨complete.messages, complete.readStates, complete.next, complete.nothing, complete.taking⟩
  rename_i node top
  have selected := Node.select_cases done
  cases selected with
  | idle refused =>
    have still : entry l.node e = l.node.r ∧ ¬(e = .accept ∧ l.node.readyc = true) := by
      rcases refused with ⟨m, rfl, _⟩ | ⟨rfl, off⟩ | ⟨rfl, off⟩ <;> simp [entry, *]
    rw [still.1]
    exact complete.work (.refl _) rfl rfl rfl rfl (fun _ => ⟨rfl, rfl⟩) (if_neg still.2) (if_neg still.2) top
  | work r' kind works =>
    obtain ⟨same, _, _, readyc, advancec⟩ := withRaft_rest l.node r'
    have plain : entry l.node e = l.node.r := by simp [entry, kind.1, kind.2]
    rw [plain]
    exact complete.work (same.symm ▸ works.grows) advancec readyc (withRaft_rd l.node r').1
      (withRaft_readStates l.node r') (fun busy => calm busy kind.2) (if_neg (by simp [kind.1]))
      (if_neg (by simp [kind.1])) top
  | accept kind enabled =>
    subst kind
    have idle : l.node.advancec = false := by
      by_contra busy
      simp [complete.taking (by simpa using busy)] at enabled
    obtain ⟨messages, readStates⟩ := complete.next idle enabled
    have now : entry l.node .accept = l.node.accept.r := by simp [entry, enabled]
    rw [now, if_pos ⟨rfl, enabled⟩, if_pos ⟨rfl, enabled⟩]
    refine Complete.loopTop (l := { l with
      sent := l.sent ++ l.node.accept.r.newMessages l.node.accept.r
      answered := l.answered ++ l.node.accept.r.newReadStates l.node.accept.r
      taken := l.taken ++ l.node.rd.messages
      takenReads := l.takenReads ++ l.node.rd.readStates }) top ?_ ?_ (by simp [Node.accept]) (by simp [Node.accept])
    · simpa [Raft.newMessages, Raft.toPeers, Node.accept, pending, messages] using complete.messages
    · simpa [Raft.newReadStates, Node.accept, pendingReads, readStates] using complete.readStates
  | advance _ kind enabled works moved =>
    subst kind
    have off := complete.taking enabled
    have now : entry l.node .advance = l.node.r.advance l.node.rd := by simp [entry, enabled]
    have grows := works.grows
    obtain ⟨r', _, last⟩ := Outcome.bind_eq_ok.mp moved
    cases last
    have other : ¬(Node.Event.advance = .accept ∧ l.node.readyc = true) := by simp
    rw [now, if_neg other, if_neg other]
    refine Complete.loopTop (l := { l with
      sent := l.sent ++ (l.node.r.advance l.node.rd).newMessages r'
      answered := l.answered ++ (l.node.r.advance l.node.rd).newReadStates r' }) top ?_ ?_ (by simp [off]) (by simp)
    · refine (complete.messages.append_right _).trans ?_
      simp only [pending, Raft.newMessages, enabled, if_true, List.nil_append, Bool.false_eq_true, if_false,
        List.append_assoc]
      refine List.Perm.append_left _ ?_
      rw [grows.id, grows.toPeers]
      simp only [Raft.advance, List.length_nil, List.drop_zero]
      rw [← List.append_assoc, ← List.append_assoc]
      exact List.Perm.append_right _ List.perm_append_comm
    · simp [complete.readStates, pendingReads, enabled, Raft.newReadStates, Raft.advance]

theorem Complete.step {l : Ledger} {e : LoopEvent} (complete : l.Complete) (calm : l.Calm e) :
    (l.step e).Complete := by
  cases e with
  | arm e =>
    simp only [Ledger.step]
    split
    · exact complete
    · exact complete.arm calm
  | host storage =>
    simp only [Ledger.step]
    split
    · exact complete
    · exact ⟨complete.messages, complete.readStates, complete.next, complete.nothing, complete.taking⟩

theorem Complete.start {cfg : Config} {l : Ledger} (started : start cfg = .ok l) : l.Complete := by
  obtain ⟨first, made, rest⟩ := Outcome.bind_eq_ok.mp started
  obtain ⟨r, built, same⟩ := Outcome.bind_eq_ok.mp made
  obtain ⟨node, top, filled⟩ := Outcome.bind_eq_ok.mp rest
  cases same
  cases filled
  have fresh := Raft.newRaft_fresh built
  refine Complete.loopTop (l := { node }) top ?_ ?_ (by simp) (by simp)
  · simp [pending, fresh.messages, fresh.msgsAfterAppend, Raft.toPeers]
  · simp [pendingReads, fresh.readStates]

/-- No output is lost or delivered twice in a run without output while a `Ready` is out. -/
theorem outputs_complete (cfg : Config) (l : Ledger) (events : List LoopEvent) (started : start cfg = .ok l)
    (calm : Runs.Along step Calm l events) : (Runs.exec step l events).Complete :=
  Runs.invariant _ Complete (fun _ _ complete calm => complete.step calm) (.start started) calm

def freshVoter : Config where
  id := 1
  peers := [2, 3]
  storage := {}
  applied := 0
  electionTick := 2
  heartbeatTick := 1
  rng := fun _ => 0

def beat (context : Bytes) : LoopEvent :=
  .arm (.step { type := .msgHeartbeat, fromId := 2, toId := 1, term := 1, context })

/-- An append and a tick come between the first `Ready` and its `Advance`. -/
def answeredInTurn : List LoopEvent :=
  [beat [1], .arm .accept,
    .arm (.step { type := .msgApp, fromId := 2, toId := 1, term := 1, entries := [⟨1, 1, []⟩] }), .arm .tick,
    .arm .advance, beat [2], .arm .accept, .arm .advance]

def startsWith (cfg : Config) (check : Ledger → Bool) : Bool :=
  match start cfg with
  | .error _ => false
  | .ok l => check l

theorem startsWith_spec {cfg : Config} {check : Ledger → Bool} (passed : startsWith cfg check = true) :
    ∃ l, start cfg = .ok l ∧ check l = true := by
  unfold startsWith at passed
  split at passed
  · cases passed
  · rename_i l started
    exact ⟨l, started, passed⟩

theorem answeredInTurn_complete :
    ∃ l, start freshVoter = .ok l ∧ (Runs.exec step l answeredInTurn).taken.length = 3 ∧
      (Runs.exec step l answeredInTurn).Complete := by
  have passed : startsWith freshVoter (fun l => decide (Runs.Along step Calm l answeredInTurn) &&
      decide ((Runs.exec step l answeredInTurn).taken.length = 3)) = true := by
    decide +kernel
  obtain ⟨l, started, checked⟩ := startsWith_spec passed
  simp only [Bool.and_eq_true, decide_eq_true_eq] at checked
  exact ⟨l, started, checked.2, outputs_complete _ l answeredInTurn started checked.1⟩

/-- The second heartbeat arrives while the host holds the `Ready` with the first answer. -/
def answeredTooEarly : List LoopEvent :=
  [beat [1], .arm .accept, beat [2], .arm .advance, beat [3], .arm .accept, .arm .advance]

/-- The second answer is in no `Ready`, though two cycles follow the first one. -/
theorem answeredTooEarly_incomplete :
    ∃ l, start freshVoter = .ok l ∧
      (Runs.exec step l answeredTooEarly).sent.map Message.context = [[1], [2], [3]] ∧
      (Runs.exec step l answeredTooEarly).taken.map Message.context = [[1], [3]] ∧
      ¬(Runs.exec step l answeredTooEarly).Complete := by
  have passed : startsWith freshVoter (fun l =>
      decide ((Runs.exec step l answeredTooEarly).sent.map Message.context = [[1], [2], [3]]) &&
      decide ((Runs.exec step l answeredTooEarly).taken.map Message.context = [[1], [3]]) &&
      decide (pending (Runs.exec step l answeredTooEarly).node = [])) = true := by
    decide +kernel
  obtain ⟨l, started, checked⟩ := startsWith_spec passed
  simp only [Bool.and_eq_true, decide_eq_true_eq] at checked
  obtain ⟨⟨sent, taken⟩, none⟩ := checked
  refine ⟨l, started, sent, taken, fun complete => ?_⟩
  have lengths := complete.messages.length_eq
  have sentLength := congrArg List.length sent
  have takenLength := congrArg List.length taken
  simp only [List.length_map, List.length_cons, List.length_nil] at sentLength takenLength
  rw [none, List.append_nil] at lengths
  omega

end Ledger

end Kvgo

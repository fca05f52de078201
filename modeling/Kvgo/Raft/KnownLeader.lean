import Kvgo.Raft.Boot
import Kvgo.Raft.Election
import Kvgo.Raft.Inputs

/-! The leader that a node names. A follower takes the sender of any message of a later term
for its leader, and that of an append, a heartbeat or a snapshot of an earlier one; after such a message the
name is in doubt. The next append, heartbeat or snapshot of the term settles it. -/

namespace Kvgo

namespace Raft

def points (r : Raft) : List Input → List Raft
  | [] => [r]
  | i :: is =>
    r :: match r.play i with
      | .ok r' => points r' is
      | .error _ => []

variable {r r' : Raft} {is : List Input}

theorem points_start (r : Raft) (is : List Input) : r ∈ r.points is := by
  cases is <;> simp [points]

theorem points_cons {i : Input} {r1 : Raft} (first : r.play i = .ok r1) : r.points (i :: is) = r :: r1.points is := by
  rw [points, first]

theorem points_end (ok : is.foldlM play r = .ok r') : r' ∈ r.points is := by
  induction is generalizing r with
  | nil =>
    cases ok
    simp [points]
  | cons i is ih =>
    rw [List.foldlM_cons] at ok
    obtain ⟨r1, first, rest⟩ := Outcome.bind_eq_ok.mp ok
    rw [points_cons first]
    exact List.mem_cons_of_mem _ (ih rest)

/-- What the inputs leave in the buffers was there, or was queued at a point at which the node
led the term of the message. -/
theorem foldlM_hails (ok : is.foldlM play r = .ok r') {msg : Message} (inside : msg ∈ r'.held)
    (hail : isHail msg = true) :
    msg ∈ r.held ∨ ∃ s ∈ r.points is, s.state = .leader ∧ msg.term = s.term ∧ msg.fromId = r.id := by
  induction is generalizing r with
  | nil =>
    cases ok
    exact .inl inside
  | cons i is ih =>
    rw [List.foldlM_cons] at ok
    obtain ⟨r1, first, rest⟩ := Outcome.bind_eq_ok.mp ok
    rw [points_cons first]
    rcases ih rest with before | ⟨s, point, leads, term, sender⟩
    · rcases (play_buffers first).1 msg before with old | new
      · exact .inl old
      · obtain ⟨leads, term, sender⟩ := play_hails first new hail
        exact .inr ⟨r1, List.mem_cons_of_mem _ (points_start r1 is), leads, term, sender.trans (play_id first)⟩
    · exact .inr ⟨s, List.mem_cons_of_mem _ point, leads, term, sender.trans (play_id first)⟩

theorem foldlM_after (ok : is.foldlM play r = .ok r') {msg : Message} (inside : msg ∈ r'.msgsAfterAppend) :
    msg ∈ r.msgsAfterAppend ∨ afterAppend msg.type = true := by
  induction is generalizing r with
  | nil =>
    cases ok
    exact .inl inside
  | cons i is ih =>
    rw [List.foldlM_cons] at ok
    obtain ⟨r1, first, rest⟩ := Outcome.bind_eq_ok.mp ok
    exact (ih rest).elim ((play_buffers first).2 msg) .inr

theorem foldlM_id (ok : is.foldlM play r = .ok r') : r'.id = r.id := by
  induction is generalizing r with
  | nil =>
    cases ok
    rfl
  | cons i is ih =>
    rw [List.foldlM_cons] at ok
    obtain ⟨r1, first, rest⟩ := Outcome.bind_eq_ok.mp ok
    exact (ih rest).trans (play_id first)

end Raft

namespace Ballot

def NamesSelf (b : Ballot) : Prop := b.state = .leader → b.lead = b.id

variable {b : Ballot} {m : Message} {answers : Answers}

theorem elect_names (names : b.NamesSelf) : b.elect.NamesSelf := by
  rcases elect_cases b with ⟨_, same⟩ | ⟨same, _⟩ | same <;> rw [same]
  · exact names
  · exact fun _ => rfl
  · exact fun leads => by cases leads

theorem step_names (names : b.NamesSelf) : (b.step answers m).NamesSelf := by
  have moved := step_moved b answers m
  have checked : (b.checkTerm m).NamesSelf := by
    rcases checkTerm_cases b m with ⟨same, _⟩ | ⟨same, _⟩ <;> rw [same]
    · exact names
    · exact fun leads => by cases leads
  generalize b.step answers m = b' at moved
  cases moved with
  | keep => exact checked
  | heed role => exact fun leads => by simp [role] at leads
  | vote => exact checked
  | yield => exact fun leads => by cases leads
  | abdicate => exact fun leads => by cases leads
  | hup =>
    rcases hup_cases (b.checkTerm m) with ⟨_, same⟩ | ⟨same, _⟩ | same <;> rw [same]
    · exact checked
    · exact elect_names (fun leads => by cases leads)
    · exact fun leads => by cases leads
  | transfer => exact elect_names checked
  | count role =>
    rcases count_cases (b.checkTerm m) m with same | ⟨_, same | same | ⟨_, ⟨_, same⟩ | ⟨_, same⟩⟩⟩ <;> rw [same]
    · exact checked
    · intro leads
      rcases role with pre | candidate
      · simp [record, pre] at leads
      · simp [record, candidate] at leads
    · exact fun leads => by cases leads
    · exact fun leads => by cases leads
    · exact fun _ => rfl

/-- What an append, a heartbeat or a snapshot of the present or a later term does. -/
theorem step_hail (hail : isHail m = true) (current : b.term ≤ m.term) :
    (b.step answers m).state = .leader ∨ (b.step answers m).lead = m.fromId ∧ (b.step answers m).term = m.term := by
  have checked : (b.checkTerm m).term = m.term := by
    rcases checkTerm_cases b m with ⟨same, old⟩ | ⟨same, _⟩ <;> rw [same]
    · rcases old with old | pre | pre
      · exact Nat.le_antisymm current old
      · simp [isHail, pre] at hail
      · simp [isHail, pre] at hail
    · rfl
  have role : b.step answers m = (b.checkTerm m).stepRole answers m := by
    refine stepType_other ?_ ?_ ?_ <;> intro kind <;> simp [isHail, kind] at hail
  rw [role]
  generalize b.checkTerm m = b at checked
  have kind : m.type = .msgApp ∨ m.type = .msgHeartbeat ∨ m.type = .msgSnap := by
    simpa [isHail, or_assoc] using hail
  unfold stepRole
  cases state : b.state with
  | follower =>
    refine .inr ?_
    rcases kind with kind | kind | kind <;> simp [stepFollower, kind, checked]
  | preCandidate =>
    refine .inr ?_
    rcases kind with kind | kind | kind <;> simp [stepCandidate, kind, follow]
  | candidate =>
    refine .inr ?_
    rcases kind with kind | kind | kind <;> simp [stepCandidate, kind, follow]
  | leader =>
    refine .inl ?_
    rcases kind with kind | kind | kind <;> simp [stepLeader, kind, state]

/-- What a node does with the name of its leader on any other message that is not of a later term. -/
def Holds (b b' : Ballot) : Prop := b'.state = .leader ∨ b'.lead = None ∨ b'.lead = b.lead ∧ b'.term = b.term

theorem elect_holds (b : Ballot) : Holds b b.elect := by
  rcases elect_cases b with ⟨_, same⟩ | ⟨same, _⟩ | same <;> rw [same]
  · exact .inr (.inr ⟨rfl, rfl⟩)
  · exact .inl rfl
  · exact .inr (.inl rfl)

theorem step_other (hail : isHail m = false)
    (current : m.term ≤ b.term ∨ m.type = .msgPreVote ∨ m.type = .msgPreVoteResp) : Holds b (b.step answers m) := by
  have checked : b.checkTerm m = b := by
    rcases checkTerm_cases b m with ⟨same, _⟩ | ⟨_, later⟩
    · exact same
    · unfold checkTerm
      rw [if_neg]
      rcases current with old | pre | pre
      · omega
      · simp [pre]
      · simp [pre]
  have moved := step_moved b answers m
  rw [checked] at moved
  generalize b.step answers m = b' at moved
  cases moved with
  | keep => exact .inr (.inr ⟨rfl, rfl⟩)
  | heed _ kind => rw [hail] at kind; cases kind
  | vote => exact .inr (.inr ⟨rfl, rfl⟩)
  | yield _ kind => rw [hail] at kind; cases kind
  | abdicate => exact .inr (.inl rfl)
  | hup =>
    rcases hup_cases b with ⟨_, same⟩ | ⟨same, _⟩ | same <;> rw [same]
    · exact .inr (.inr ⟨rfl, rfl⟩)
    · rcases elect_holds b.poll with leads | none | ⟨lead, _⟩
      · exact .inl leads
      · exact .inr (.inl none)
      · exact .inr (.inl lead)
    · exact .inr (.inl rfl)
  | transfer => exact elect_holds b
  | count =>
    rcases count_cases b m with same | ⟨_, same | same | ⟨_, ⟨_, same⟩ | ⟨_, same⟩⟩⟩ <;> rw [same]
    · exact .inr (.inr ⟨rfl, rfl⟩)
    · exact .inr (.inr ⟨rfl, rfl⟩)
    · exact .inr (.inl rfl)
    · exact .inr (.inl rfl)
    · exact .inl rfl

end Ballot

namespace Raft

/-- Whether the name is in doubt after an input. -/
def doubts (r : Raft) (doubt : Bool) (i : Input) : Bool :=
  match r.message i with
  | none => doubt
  | some m =>
    if isHail m then decide (m.term < r.term)
    else doubt || decide (r.term < m.term ∧ ¬ (m.type = .msgPreVote ∨ m.type = .msgPreVoteResp))

def doubtsAll (r : Raft) (doubt : Bool) : List Input → Bool
  | [] => doubt
  | i :: is =>
    match r.play i with
    | .ok r' => r'.doubtsAll (r.doubts doubt i) is
    | .error _ => doubt

/-- The name is none, or that of a node that led the term. -/
def NamesLeader (led : Nat → Nat → Prop) (r : Raft) : Prop := r.lead = None ∨ led r.lead r.term

theorem message_hail {r : Raft} {i : Input} {m : Message} (message : r.message i = some m)
    (hail : isHail m = true) : i = .step m := by
  cases i with
  | step m' =>
    simp only [Raft.message] at message
    split at message
    · cases message
    · cases message
      rfl
  | propose data => cases message; cases hail
  | campaign => cases message; cases hail
  | readIndex ctx => cases message; cases hail
  | tick =>
    cases message
    unfold timer at hail
    split at hail <;> simp [isHail] at hail
  | accept => cases message
  | advance rd => cases message
  | store storage => cases message

/-- A message of a leader is not passed over. -/
theorem play_turn_hail {r r' : Raft} {i : Input} {m : Message} (ok : r.play i = .ok r')
    (message : r.message i = some m) (hail : isHail m = true) : Turn m r r' := by
  obtain rfl := message_hail message hail
  simp only [Raft.message] at message
  split at message
  · cases message
  · rename_i foreign
    simp only [play, if_neg foreign] at ok
    exact stepQuietly_turn ok

theorem play_names {led : Nat → Nat → Prop} {r r' : Raft} {i : Input} {doubt : Bool} (ok : r.play i = .ok r')
    (before : doubt = false → r.NamesLeader led) (leads : r'.state = .leader → led r'.lead r'.term)
    (hails : ∀ m, r.message i = some m → isHail m = true → led m.fromId m.term)
    (clear : r.doubts doubt i = false) : r'.NamesLeader led := by
  by_cases role : r'.state = .leader
  · exact .inr (leads role)
  have settles : ∀ m, r.message i = some m → Turn m r r' → r'.NamesLeader led := by
    rintro m message ⟨⟨answers, moved⟩, -⟩
    have lead : r'.lead = (r.ballot.step answers m).lead := congrArg Ballot.lead moved
    have term : r'.term = (r.ballot.step answers m).term := congrArg Ballot.term moved
    have follows : (r.ballot.step answers m).state ≠ .leader := by
      rw [← moved]
      exact role
    rw [NamesLeader, lead, term]
    simp only [doubts, message] at clear
    cases hail : isHail m with
    | true =>
      rw [hail, if_pos rfl] at clear
      have current : r.ballot.term ≤ m.term := Nat.not_lt.mp (of_decide_eq_false clear)
      obtain ⟨names, now⟩ := (Ballot.step_hail hail current).resolve_left follows
      rw [names, now]
      exact .inr (hails m message hail)
    | false =>
      rw [hail, if_neg (by simp)] at clear
      obtain ⟨still, old⟩ := Bool.or_eq_false_iff.mp clear
      have current : m.term ≤ r.ballot.term ∨ m.type = .msgPreVote ∨ m.type = .msgPreVoteResp := by
        by_contra later
        push Not at later
        refine of_decide_eq_false old ⟨later.1, ?_⟩
        rintro (pre | pre)
        · exact later.2.1 pre
        · exact later.2.2 pre
      rcases Ballot.step_other hail current with leads | none | ⟨same, stays⟩
      · exact absurd leads follows
      · exact .inl none
      · rw [same, stays]
        exact before still
  rcases play_turn ok with idle | ⟨m, message, turn⟩
  · -- nothing that bears on elections has changed
    have lead : r'.lead = r.lead := congrArg Ballot.lead idle.ballot
    have term : r'.term = r.term := congrArg Ballot.term idle.ballot
    cases message : r.message i with
    | none =>
      simp only [doubts, message] at clear
      rw [NamesLeader, lead, term]
      exact before clear
    | some m =>
      cases hail : isHail m with
      | true => exact settles m message (play_turn_hail ok message hail)
      | false =>
        simp only [doubts, message] at clear
        rw [hail, if_neg (by simp)] at clear
        rw [NamesLeader, lead, term]
        exact before (Bool.or_eq_false_iff.mp clear).1
  · exact settles m message turn

end Raft

theorem Raft.foldlM_names {r r' : Raft} {is : List Raft.Input} (names : r.ballot.NamesSelf)
    (ok : is.foldlM Raft.play r = .ok r') : r'.ballot.NamesSelf := by
  induction is generalizing r with
  | nil =>
    cases ok
    exact names
  | cons i is ih =>
    rw [List.foldlM_cons] at ok
    obtain ⟨r1, first, rest⟩ := Outcome.bind_eq_ok.mp ok
    refine ih ?_ rest
    rcases Raft.play_turn first with idle | ⟨m, _, ⟨answers, moved⟩, _⟩
    · rw [idle.ballot]
      exact names
    · rw [moved]
      exact Ballot.step_names names

/-- A list of inputs that leaves no doubt leaves the name of a leader. -/
theorem Raft.foldlM_leader {led : Nat → Nat → Prop} {r r' : Raft} {is : List Raft.Input} {doubt : Bool}
    (ok : is.foldlM Raft.play r = .ok r') (self : r.ballot.NamesSelf)
    (before : doubt = false → r.NamesLeader led)
    (leads : ∀ s ∈ r.points is, s.state = .leader → led r.id s.term)
    (hails : ∀ m, .step m ∈ is → isHail m = true → led m.fromId m.term)
    (clear : r.doubtsAll doubt is = false) : r'.NamesLeader led := by
  induction is generalizing r doubt with
  | nil =>
    cases ok
    exact before clear
  | cons i is ih =>
    rw [List.foldlM_cons] at ok
    obtain ⟨r1, first, rest⟩ := Outcome.bind_eq_ok.mp ok
    have single : [i].foldlM Raft.play r = .ok r1 := by
      rw [List.foldlM_cons, first]
      rfl
    have self1 : r1.ballot.NamesSelf := Raft.foldlM_names self single
    have id : r1.id = r.id := Raft.play_id first
    rw [Raft.points_cons first] at leads
    have leads1 : ∀ s ∈ r1.points is, s.state = .leader → led r1.id s.term := by
      rw [id]
      exact fun s inside => leads s (List.mem_cons_of_mem _ inside)
    simp only [Raft.doubtsAll, first] at clear
    refine ih rest self1 (fun settled => ?_) leads1 (fun m inside => hails m (List.mem_cons_of_mem _ inside)) clear
    refine Raft.play_names first before (fun role => ?_) (fun m message hail => ?_) settled
    · have lead : r1.lead = r1.id := self1 role
      rw [lead]
      exact leads1 r1 (Raft.points_start r1 is) role
    · exact hails m (by rw [Raft.message_hail message hail]; simp) hail

/-- A leader's messages that a node holds or has lent are of terms their senders led. -/
structure Node.Signed (led : Nat → Nat → Prop) (n : Nat) (node : Node) : Prop where
  id : node.r.id = n
  held : ∀ msg ∈ node.r.held, isHail msg = true → led msg.fromId msg.term
  lent : ∀ msg ∈ node.rd.messages, isHail msg = true → led msg.fromId msg.term
  after : ∀ msg ∈ node.r.msgsAfterAppend, afterAppend msg.type = true
  steps : ∀ msg ∈ node.stepsOnAdvance, afterAppend msg.type = true
  names : node.r.ballot.NamesSelf
  leads : node.r.state = .leader → led n node.r.term

namespace Node

variable {led led' : Nat → Nat → Prop} {n : Nat} {node node' mid : Node}

theorem Signed.mono (signed : Signed led n node) (more : ∀ x t, led x t → led' x t) : Signed led' n node :=
  { signed with
    held := fun msg inside hail => more _ _ (signed.held msg inside hail)
    lent := fun msg inside hail => more _ _ (signed.lent msg inside hail)
    leads := fun role => more _ _ (signed.leads role) }

theorem Signed.loopTop (signed : Signed led n node) (top : node.loopTop = .ok node') : Signed led n node' := by
  rcases Cluster.loopTop_cases top with ⟨rfl, _⟩ | ⟨_, _, rd, ready, rfl⟩
  · exact signed
  · have shows := ready_shows ready
    exact { signed with lent := fun msg inside => signed.held msg (Raft.held_of_shows shows msg inside) }

theorem Signed.withStorage (signed : Signed led n node) (storage : MemStorage) :
    Signed led n (Cluster.withStorage node storage) :=
  ⟨signed.id, signed.held, signed.lent, signed.after, signed.steps, signed.names, signed.leads⟩

theorem foreign_of_after {type : MessageType} (after : afterAppend type = true) : isLocalMsg type = false := by
  cases type <;> first | rfl | cases after

/-- What an arm does to the rest of the node. -/
theorem select_rest {arm : Event} {err : Option StepError} (ok : node.select arm = .ok (mid, err)) :
    (∀ msg ∈ mid.rd.messages, msg ∈ node.rd.messages) ∧
      ∀ msg ∈ mid.stepsOnAdvance, msg ∈ node.stepsOnAdvance ∨ msg ∈ node.r.msgsAfterAppend := by
  have request : ∀ {result : Raft.Result}, node.handle result = .ok (mid, err) →
      (∀ msg ∈ mid.rd.messages, msg ∈ node.rd.messages) ∧
        ∀ msg ∈ mid.stepsOnAdvance, msg ∈ node.stepsOnAdvance ∨ msg ∈ node.r.msgsAfterAppend := by
    intro result ok
    obtain ⟨r', _, rfl⟩ := handle_eq_ok ok
    rw [(withRaft_rd node r').1, (withRaft_rest node r').2.1]
    exact ⟨fun _ inside => inside, fun _ => .inl⟩
  cases arm with
  | step m =>
    simp only [select] at ok
    split at ok
    · cases ok
      exact ⟨fun _ inside => inside, fun _ => .inl⟩
    · exact request ok
  | propose data => exact request ok
  | campaign => exact request ok
  | readIndex ctx => exact request ok
  | tick => exact request ok
  | accept =>
    simp only [select] at ok
    cases ok
    split
    · refine ⟨fun _ inside => inside, fun msg inside => ?_⟩
      exact (List.mem_append.mp inside).imp_right (fun new => (List.mem_filter.mp new).1)
    · exact ⟨fun _ inside => inside, fun _ => .inl⟩
  | advance =>
    simp only [select] at ok
    split at ok
    · obtain ⟨n1, advanced, ok⟩ := Outcome.bind_eq_ok.mp ok
      cases ok
      obtain ⟨r', _, ok⟩ := Outcome.bind_eq_ok.mp advanced
      cases ok
      exact ⟨by simp, by simp⟩
    · cases ok
      exact ⟨fun _ inside => inside, fun _ => .inl⟩

theorem Signed.select (signed : Signed led n node) (more : ∀ x t, led x t → led' x t) {arm : Event}
    (points : ∀ s ∈ node.r.points (node.inputs arm), s.state = .leader → led' n s.term)
    {err : Option StepError} (ok : node.select arm = .ok (mid, err)) : Signed led' n mid := by
  have played := select_inputs (fun msg inside => foreign_of_after (signed.steps msg inside)) ok
  obtain ⟨lent, steps⟩ := select_rest ok
  refine ⟨(Raft.foldlM_id played).trans signed.id, fun msg inside hail => ?_, fun msg inside hail => ?_,
    fun msg inside => ?_, fun msg inside => ?_, Raft.foldlM_names signed.names played, fun role => ?_⟩
  · rcases Raft.foldlM_hails played inside hail with old | ⟨s, point, leads, term, sender⟩
    · exact more _ _ (signed.held msg old hail)
    · rw [sender, signed.id, term]
      exact points s point leads
  · exact more _ _ (signed.lent msg (lent msg inside) hail)
  · exact (Raft.foldlM_after played inside).elim (signed.after msg) (fun after => after)
  · exact (steps msg inside).elim (signed.steps msg) (signed.after msg)
  · exact points mid.r (Raft.points_end played) role

end Node

namespace Cluster

def inputsAt (c : Cluster) (e : ClusterEvent) (id : Nat) : List Raft.Input :=
  match c.target e, c.procs id with
  | some (dest, arm), .up node phase => if dest = id ∧ (arm = .advance → phase = .sent) then node.inputs arm else []
  | _, _ => []

def leadsDuring (c : Cluster) (e : ClusterEvent) (id term : Nat) : Bool :=
  match c.procs id with
  | .up node _ => (node.r.points (c.inputsAt e id)).any (fun s => decide (s.state = .leader) && decide (s.term = term))
  | .down _ _ => false

def HasLed (cfg : ClusterConfig) (c : Cluster) (past : List ClusterEvent) (id term : Nat) : Prop :=
  ∃ j e, past[j]? = some e ∧ (exec cfg c (past.take j)).leadsDuring e id term = true

variable {cfg : ClusterConfig} {c : Cluster} {e : ClusterEvent} {id : Nat}

theorem leadsDuring_of_point {node : Node} {phase : Phase} {arm : Node.Event} (up : c.procs id = .up node phase)
    (same : c.inputsAt e id = node.inputs arm) {s : Raft} (point : s ∈ node.r.points (node.inputs arm))
    (leads : s.state = .leader) : c.leadsDuring e id s.term = true := by
  simp only [leadsDuring, up, same, List.any_eq_true, Bool.and_eq_true, decide_eq_true_eq]
  exact ⟨s, point, leads, rfl⟩

theorem HasLed.append {past : List ClusterEvent} {term : Nat} (led : HasLed cfg c past id term)
    (more : List ClusterEvent) : HasLed cfg c (past ++ more) id term := by
  obtain ⟨j, e, here, leads⟩ := led
  have early : j < past.length := (List.getElem?_eq_some_iff.mp here).1
  refine ⟨j, e, ?_, ?_⟩
  · rw [List.getElem?_append_left early, here]
  · rw [List.take_append_of_le_length early.le]
    exact leads

theorem run_up {node node' : Node} {phase phase' : Phase} {arm : Node.Event}
    (up : run node phase arm = .up node' phase') :
    ∃ mid err, node.select arm = .ok (mid, err) ∧ mid.loopTop = .ok node' := by
  unfold run at up
  split at up
  · cases up
  · rename_i mid err selected
    split at up
    · cases up
    · rename_i node'' top
      cases up
      exact ⟨mid, err, selected, top⟩

/-- How the node of a process comes from the event before, with the inputs that it has played. -/
inductive Origin (cfg : ClusterConfig) (c : Cluster) (e : ClusterEvent) (id : Nat) (node' : Node) : Prop
  | same (phase : Phase) (up : c.procs id = .up node' phase) (idle : c.inputsAt e id = [])
  | stored (node : Node) (phase : Phase) (storage : MemStorage) (up : c.procs id = .up node phase)
      (same : node' = withStorage node storage) (idle : c.inputsAt e id = [])
  | ran (node mid : Node) (phase : Phase) (arm : Node.Event) (err : Option StepError)
      (up : c.procs id = .up node phase) (selected : node.select arm = .ok (mid, err))
      (top : mid.loopTop = .ok node')
      (inputs : arm = .accept ∧ c.inputsAt e id = [] ∨
        c.inputsAt e id = node.inputs arm ∧ ∀ m, arm = .step m → isHail m = true → ∃ p ∈ c.packets, p.msg = m)
  | booted (storage : MemStorage) (rng : Nat → Nat) (phase : Phase) (down : ∀ node phase, c.procs id ≠ .up node phase)
      (up : boot cfg id storage rng = .up node' phase)

theorem inputsAt_away {dest : Nat} {arm : Node.Event} (aimed : c.target e = some (dest, arm)) (other : id ≠ dest) :
    c.inputsAt e id = [] := by
  unfold inputsAt
  rw [aimed]
  cases c.procs id with
  | down cause storage => rfl
  | up node phase => exact if_neg fun both => other both.1.symm

theorem inputsAt_none (aimed : c.target e = none) : c.inputsAt e id = [] := by
  unfold inputsAt
  rw [aimed]

theorem setProc_procs (c : Cluster) (id' : Nat) (p : Proc) :
    (c.setProc id' p).procs id = if id = id' then p else c.procs id := by
  simp [setProc, Function.update_apply]

theorem origin_setProc {dest : Nat} {p : Proc} {node' : Node} {phase' : Phase}
    (up : (c.setProc dest p).procs id = .up node' phase') (away : id ≠ dest → c.inputsAt e id = [])
    (mine : id = dest → p = .up node' phase' → Origin cfg c e id node') : Origin cfg c e id node' := by
  rw [setProc_procs] at up
  split at up
  · rename_i same
    exact mine same up
  · rename_i other
    exact .same phase' up (away other)

theorem onNode_origin {dest : Nat} {arm : Node.Event} {arrived : List Nat} {node' : Node} {phase' : Phase}
    (aimed : c.target e = some (dest, arm)) (ordinary : arm ≠ .advance)
    (sent : ∀ m, arm = .step m → isHail m = true → ∃ p ∈ c.packets, p.msg = m)
    (up : ({ c with arrived }.onNode dest arm).procs id = .up node' phase') : Origin cfg c e id node' := by
  unfold onNode at up
  split at up
  · rename_i cause storage down
    refine .same phase' up (inputsAt_away aimed fun same => ?_)
    subst same
    exact absurd (down.symm.trans up) (by simp)
  · rename_i node phase here
    refine origin_setProc up (inputsAt_away aimed) fun same ran => ?_
    subst same
    obtain ⟨mid, err, selected, top⟩ := run_up ran
    refine .ran node mid phase arm err here selected top (.inr ⟨?_, sent⟩)
    have now : c.procs id = .up node phase := here
    simp [inputsAt, aimed, now, ordinary]

theorem step_origin {node' : Node} {phase' : Phase} (up : (step cfg c e).procs id = .up node' phase') :
    Origin cfg c e id node' := by
  -- an event that runs an arm of the loop, without marking a packet
  have armed {dest : Nat} {arm : Node.Event} (aimed : c.target e = some (dest, arm)) (ordinary : arm ≠ .advance)
      (sent : ∀ m, arm = .step m → isHail m = true → ∃ p ∈ c.packets, p.msg = m)
      (up : ({ c with arrived := c.arrived }.onNode dest arm).procs id = .up node' phase') :
      Origin cfg c e id node' := onNode_origin aimed ordinary sent up
  cases e with
  | deliver position =>
    simp only [step, deliver] at up
    split at up
    · rename_i lost
      exact .same phase' up (inputsAt_none (by simp [target, lost]))
    · rename_i packet found
      refine onNode_origin (by simp [target, found]) (by simp) (fun m same _ => ?_) up
      cases same
      exact ⟨packet, List.mem_of_getElem? found, rfl⟩
  | tick dest => exact armed rfl (by simp) (by simp) up
  | campaign dest => exact armed rfl (by simp) (by simp) up
  | propose dest data => exact armed rfl (by simp) (by simp) up
  | readIndex dest ctx => exact armed rfl (by simp) (by simp) up
  | transfer dest x =>
    refine armed rfl (by simp) (fun m same hail => ?_) up
    cases same
    cases hail
  | ready dest =>
    have idle : c.inputsAt (.ready dest) id = [] := inputsAt_none rfl
    simp only [step, ready] at up
    split at up
    · rename_i node here
      split at up
      · refine origin_setProc up (fun _ => idle) fun same ran => ?_
        subst same
        obtain ⟨mid, err, selected, top⟩ := run_up ran
        exact .ran node mid .idle .accept err here selected top (.inl ⟨rfl, idle⟩)
      · exact .same phase' up idle
    · exact .same phase' up idle
  | save dest =>
    have idle : c.inputsAt (.save dest) id = [] := inputsAt_none rfl
    simp only [step, save] at up
    split at up
    · rename_i node here
      split at up
      · exact origin_setProc up (fun _ => idle) fun _ down => by cases down
      · refine origin_setProc up (fun _ => idle) fun same stored => ?_
        subst same
        cases stored
        exact .stored node .accepted _ here rfl idle
      · refine origin_setProc up (fun _ => idle) fun same stored => ?_
        subst same
        cases stored
        exact .stored node .accepted _ here rfl idle
    · exact .same phase' up idle
  | send dest =>
    have idle : c.inputsAt (.send dest) id = [] := inputsAt_none rfl
    simp only [step, send] at up
    split at up
    · rename_i node here
      refine origin_setProc up (fun _ => idle) fun same sent => ?_
      subst same
      cases sent
      exact .same .saved here idle
    · exact .same phase' up idle
  | advance dest =>
    simp only [step, advance] at up
    split at up
    · rename_i node here
      refine origin_setProc up (inputsAt_away rfl) fun same ran => ?_
      subst same
      obtain ⟨mid, err, selected, top⟩ := run_up ran
      refine .ran node mid .sent .advance err here selected top (.inr ⟨?_, by simp⟩)
      simp [inputsAt, target, here]
    · rename_i busy
      refine .same phase' up ?_
      by_cases same : id = dest
      · subst same
        have early : phase' ≠ .sent := fun sent => busy node' (by rw [up, sent])
        simp [inputsAt, target, up, early]
      · exact inputsAt_away rfl same
  | compact dest index =>
    have idle : c.inputsAt (.compact dest index) id = [] := inputsAt_none rfl
    simp only [step, compact] at up
    split at up
    · exact .same phase' up idle
    · rename_i node phase here
      split at up
      · exact origin_setProc up (fun _ => idle) fun _ down => by cases down
      · refine origin_setProc up (fun _ => idle) fun same stored => ?_
        subst same
        cases stored
        exact .stored node phase' _ here rfl idle
  | crash dest =>
    have idle : c.inputsAt (.crash dest) id = [] := inputsAt_none rfl
    simp only [step, crash] at up
    split at up
    · exact .same phase' up idle
    · exact origin_setProc up (fun _ => idle) fun _ down => by cases down
  | restart dest rng =>
    have idle : c.inputsAt (.restart dest rng) id = [] := inputsAt_none rfl
    simp only [step, restart] at up
    split at up
    · exact .same phase' up idle
    · rename_i cause storage down
      split at up
      · refine origin_setProc up (fun _ => idle) fun same booted => ?_
        subst same
        exact .booted _ rng phase' (fun node phase here => by rw [here] at down; cases down) booted
      · exact .same phase' up idle

theorem step_packets (cfg : ClusterConfig) (c : Cluster) (e : ClusterEvent) {p : Packet}
    (inside : p ∈ (step cfg c e).packets) :
    p ∈ c.packets ∨ ∃ node, c.procs p.src = .up node .saved ∧ p.msg ∈ node.rd.messages := by
  have stepped := step_cases cfg c e
  generalize step cfg c e = c' at stepped inside
  cases stepped with
  | send id node up =>
    rcases List.mem_append.mp inside with old | new
    · exact .inl old
    · obtain ⟨msg, lent, rfl⟩ := List.mem_map.mp new
      exact .inr ⟨node, up, lent⟩
  | _ => exact .inl inside

/-- Every leader's message in the cluster is of a term that its sender has led. -/
structure AllSigned (cfg : ClusterConfig) (start : Cluster) (past : List ClusterEvent) (c : Cluster) : Prop where
  packets : ∀ p ∈ c.packets, isHail p.msg = true → HasLed cfg start past p.msg.fromId p.msg.term
  nodes : ∀ id node phase, c.procs id = .up node phase → Node.Signed (HasLed cfg start past) id node

theorem boot_signed {led : Nat → Nat → Prop} {storage : MemStorage} {rng : Nat → Nat} {node : Node} {phase : Phase}
    (up : boot cfg id storage rng = .up node phase) : Node.Signed led id node := by
  obtain ⟨_, r, fresh, top⟩ := boot_up up
  have names : r.ballot.NamesSelf := by
    intro leads
    rw [show r.ballot.state = .follower from fresh.state] at leads
    cases leads
  refine Node.Signed.loopTop ⟨fresh.id, ?_, ?_, ?_, ?_, names, ?_⟩ top
  · simp [Raft.held, fresh.messages, fresh.msgsAfterAppend]
  · simp
  · simp [fresh.msgsAfterAppend]
  · simp
  · simp [fresh.state]

theorem AllSigned.step {start : Cluster} {past : List ClusterEvent}
    (signed : AllSigned cfg start past (exec cfg start past)) (e : ClusterEvent) :
    AllSigned cfg start (past ++ [e]) (step cfg (exec cfg start past) e) := by
  have more : ∀ x t, HasLed cfg start past x t → HasLed cfg start (past ++ [e]) x t :=
    fun _ _ led => led.append [e]
  have during : ∀ x t, (exec cfg start past).leadsDuring e x t = true → HasLed cfg start (past ++ [e]) x t := by
    intro x t leads
    refine ⟨past.length, e, by simp, ?_⟩
    rw [List.take_left' rfl]
    exact leads
  constructor
  · intro p inside hail
    rcases step_packets cfg _ e inside with old | ⟨node, up, lent⟩
    · exact more _ _ (signed.packets p old hail)
    · exact more _ _ ((signed.nodes p.src node .saved up).lent p.msg lent hail)
  · intro id node' phase' up
    cases step_origin up with
    | same phase up _ => exact (signed.nodes id node' phase up).mono more
    | stored node phase storage up same _ =>
      rw [same]
      exact ((signed.nodes id node phase up).mono more).withStorage storage
    | ran node mid phase arm err up selected top inputs =>
      have old := signed.nodes id node phase up
      refine Node.Signed.loopTop (old.select more (fun s point leads => ?_) selected) top
      rcases inputs with ⟨rfl, _⟩ | ⟨same, _⟩
      · -- taking a `Ready` is not a point of its own
        have still : s.state = node.r.state ∧ s.term = node.r.term := by
          simp only [Node.inputs] at point
          split at point
          · simp only [Raft.points, Raft.play, List.mem_cons, List.not_mem_nil, or_false] at point
            rcases point with rfl | rfl <;> exact ⟨rfl, rfl⟩
          · simp only [Raft.points, List.mem_cons, List.not_mem_nil, or_false] at point
            rw [point]
            exact ⟨rfl, rfl⟩
        rw [still.2]
        exact more _ _ (old.leads (still.1.symm.trans leads))
      · exact during id s.term (leadsDuring_of_point up same point leads)
    | booted storage rng phase _ up => exact boot_signed up

theorem run_signed (cfg : ClusterConfig) (rng : Nat → Nat → Nat) (events : List ClusterEvent) :
    AllSigned cfg (init cfg rng) events (exec cfg (init cfg rng) events) := by
  have any : Runs.Along (step cfg) (fun _ _ => True) (init cfg rng) events :=
    Runs.along_of_forall (step cfg) (fun _ _ => trivial)
  refine Runs.invariant_past (step cfg) (AllSigned cfg (init cfg rng)) (fun _ e signed _ => signed.step e)
    ⟨by simp [init], fun id node phase up => ?_⟩ any
  simp only [init] at up
  split at up
  · exact boot_signed up
  · cases up

/-! Which nodes have a name in doubt. -/

def doubtAfter (c : Cluster) (e : ClusterEvent) (doubt : Nat → Bool) (id : Nat) : Bool :=
  match c.procs id with
  | .up node _ => node.r.doubtsAll (doubt id) (c.inputsAt e id)
  | .down _ _ => false

/-- A run of the cluster with the doubts beside it, which no node reads. -/
def watch (cfg : ClusterConfig) (w : Cluster × (Nat → Bool)) (e : ClusterEvent) : Cluster × (Nat → Bool) :=
  (step cfg w.1 e, w.1.doubtAfter e w.2)

def watched (cfg : ClusterConfig) (c : Cluster) (events : List ClusterEvent) : Cluster × (Nat → Bool) :=
  Runs.exec (watch cfg) (c, fun _ => false) events

/-- The last message that could give node `id` a leader was of a later term and not from its leader, or of an
earlier term. -/
def inDoubt (cfg : ClusterConfig) (c : Cluster) (events : List ClusterEvent) (id : Nat) : Bool :=
  (watched cfg c events).2 id

/-- A node without a doubt names none or a node that has led its term. -/
structure Trusted (cfg : ClusterConfig) (start : Cluster) (past : List ClusterEvent)
    (w : Cluster × (Nat → Bool)) : Prop where
  cluster : w.1 = exec cfg start past
  signed : AllSigned cfg start past w.1
  names : ∀ id node phase, w.1.procs id = .up node phase → w.2 id = false →
    node.r.NamesLeader (HasLed cfg start past)

theorem namesLeader_mono {led led' : Nat → Nat → Prop} {r : Raft} (names : r.NamesLeader led)
    (more : ∀ x t, led x t → led' x t) : r.NamesLeader led' :=
  names.imp_right (more _ _)

theorem doubtAfter_up {doubt : Nat → Bool} {node : Node} {phase : Phase} (up : c.procs id = .up node phase) :
    c.doubtAfter e doubt id = node.r.doubtsAll (doubt id) (c.inputsAt e id) := by
  rw [doubtAfter, up]

theorem accept_lead {node : Node} {r : Raft} (played : (node.inputs .accept).foldlM Raft.play node.r = .ok r) :
    r.lead = node.r.lead ∧ r.term = node.r.term := by
  simp only [Node.inputs] at played
  split at played
  · cases played
    exact ⟨rfl, rfl⟩
  · cases played
    exact ⟨rfl, rfl⟩

theorem newRaft_lead {config : Config} {r : Raft} (ok : Raft.newRaft config = .ok r) : r.lead = None := by
  simp only [Raft.newRaft] at ok
  split at ok
  · cases ok
  split at ok
  · cases ok
  split at ok
  · cases ok
  · cases ok
    rfl

theorem boot_lead {storage : MemStorage} {rng : Nat → Nat} {node : Node} {phase : Phase}
    (up : boot cfg id storage rng = .up node phase) : node.r.lead = None := by
  unfold boot at up
  split at up
  · cases up
  rename_i start made
  split at up
  · cases up
  rename_i node' top
  cases up
  obtain ⟨r, built, same⟩ := Outcome.bind_eq_ok.mp made
  cases same
  rcases loopTop_cases top with ⟨rfl, _⟩ | ⟨_, _, rd, _, rfl⟩
  · exact newRaft_lead built
  · exact newRaft_lead built

theorem Trusted.step {start : Cluster} {past : List ClusterEvent} {w : Cluster × (Nat → Bool)}
    (trusted : Trusted cfg start past w) (e : ClusterEvent) : Trusted cfg start (past ++ [e]) (watch cfg w e) := by
  obtain ⟨c, doubt⟩ := w
  obtain ⟨rfl, signed, names⟩ := trusted
  have more : ∀ x t, HasLed cfg start past x t → HasLed cfg start (past ++ [e]) x t :=
    fun _ _ led => led.append [e]
  have during : ∀ x t, (exec cfg start past).leadsDuring e x t = true → HasLed cfg start (past ++ [e]) x t := by
    intro x t leads
    refine ⟨past.length, e, by simp, ?_⟩
    rw [List.take_left' rfl]
    exact leads
  have cluster : (watch cfg (exec cfg start past, doubt) e).1 = exec cfg start (past ++ [e]) := by
    unfold exec
    rw [Runs.exec_append]
    rfl
  refine ⟨cluster, signed.step e, fun id node' phase' up clear => ?_⟩
  have clear : (exec cfg start past).doubtAfter e doubt id = false := clear
  have before : ∀ node phase, (exec cfg start past).procs id = .up node phase → doubt id = false →
      node.r.NamesLeader (HasLed cfg start (past ++ [e])) :=
    fun node phase up settled => namesLeader_mono (names id node phase up settled) more
  cases step_origin up with
  | same phase up idle =>
    rw [doubtAfter_up up, idle] at clear
    exact before node' phase up clear
  | stored node phase storage up same idle =>
    rw [doubtAfter_up up, idle] at clear
    rw [same]
    exact before node phase up clear
  | ran node mid phase arm err up selected top inputs =>
    have old := signed.nodes id node phase up
    have played := Node.select_inputs (fun msg inside => Node.foreign_of_after (old.steps msg inside)) selected
    have last : node'.r = mid.r := by
      rcases loopTop_cases top with ⟨rfl, _⟩ | ⟨_, _, rd, _, rfl⟩ <;> rfl
    rw [doubtAfter_up up] at clear
    rw [last]
    rcases inputs with ⟨rfl, idle⟩ | ⟨same, sent⟩
    · rw [idle] at clear
      have fields := accept_lead played
      rw [Raft.NamesLeader, fields.1, fields.2]
      exact before node phase up clear
    · rw [same] at clear
      refine Raft.foldlM_leader played old.names (before node phase up) (fun s point leads => ?_)
        (fun m inside hail => ?_) clear
      · rw [old.id]
        exact during id s.term (leadsDuring_of_point up same point leads)
      · -- only a packet is a message of a leader
        obtain rfl : arm = .step m := by
          cases arm with
          | step m' => simpa [Node.inputs, eq_comm] using inside
          | propose _ | campaign | readIndex _ | tick => simp [Node.inputs] at inside
          | accept =>
            simp only [Node.inputs] at inside
            split at inside <;> simp at inside
          | advance =>
            simp only [Node.inputs] at inside
            split at inside
            · rcases List.mem_cons.mp inside with other | inside
              · cases other
              · obtain ⟨m', step, same⟩ := List.mem_map.mp inside
                cases same
                have after := old.steps m step
                cases kind : m.type <;> simp [isHail, afterAppend, kind] at hail after
            · simp at inside
        obtain ⟨p, packet, rfl⟩ := sent m rfl hail
        exact more _ _ (signed.packets p packet hail)
  | booted storage rng phase _ up => exact .inl (boot_lead up)

theorem run_trusted (cfg : ClusterConfig) (rng : Nat → Nat → Nat) (events : List ClusterEvent) :
    Trusted cfg (init cfg rng) events (watched cfg (init cfg rng) events) := by
  have any : Runs.Along (watch cfg) (fun _ _ => True) (init cfg rng, fun _ => false) events :=
    Runs.along_of_forall (watch cfg) (fun _ _ => trivial)
  refine Runs.invariant_past (watch cfg) (Trusted cfg (init cfg rng)) (fun _ e trusted _ => trusted.step e)
    ⟨rfl, run_signed cfg rng [], fun id node phase up _ => ?_⟩ any
  simp only [init] at up
  split at up
  · exact .inl (boot_lead up)
  · cases up

/-- In every run, a node without a doubt names a node that has been leader of its term. -/
theorem known_leader_led (cfg : ClusterConfig) (rng : Nat → Nat → Nat) (events : List ClusterEvent) (id : Nat)
    (r : Raft) (here : (exec cfg (init cfg rng) events).raft? id = some r) (known : r.lead ≠ None)
    (settled : inDoubt cfg (init cfg rng) events id = false) :
    HasLed cfg (init cfg rng) events r.lead r.term := by
  have trusted := run_trusted cfg rng events
  obtain ⟨node, phase, up, rfl⟩ := raft_eq_some here
  rw [← trusted.cluster] at up
  exact (trusted.names id node phase up settled).resolve_left known

theorem firstAppend_heard : ∃ r,
    (exec threeNodes (init threeNodes (fun _ _ => 0)) (firstElection ++ [.deliver 7])).raft? 3 = some r ∧
      r.lead = 2 ∧ r.term = 1 ∧
      HasLed threeNodes (init threeNodes (fun _ _ => 0)) (firstElection ++ [.deliver 7]) 2 1 := by
  obtain ⟨r, here, names, term⟩ : ∃ r,
      (exec threeNodes (init threeNodes (fun _ _ => 0)) (firstElection ++ [.deliver 7])).raft? 3 = some r ∧
        r.lead = 2 ∧ r.term = 1 := ⟨_, rfl, by decide +kernel, by decide +kernel⟩
  have led := known_leader_led threeNodes (fun _ _ => 0) _ 3 r here (by rw [names]; decide) (by decide +kernel)
  rw [names, term] at led
  exact ⟨r, here, names, term, led⟩

def termAt (c : Cluster) (id : Nat) : Nat := (c.raft? id).elim 0 Raft.term

/-- A request for its vote makes node 3 name a candidate that has not won anything. -/
theorem candidate_named :
    ((exec threeNodes (init threeNodes (fun _ _ => 0)) (firstElection.take 16)).raft? 3).map
      (fun r => (r.term, r.lead)) = some (1, 2) ∧
    (∀ j < 16, ∀ id ∈ threeNodes.voters,
      termAt (exec threeNodes (init threeNodes (fun _ _ => 0)) (firstElection.take j)) id ≤
        termAt (exec threeNodes (init threeNodes (fun _ _ => 0)) (firstElection.take (j + 1))) id) ∧
    ¬ HasLed threeNodes (init threeNodes (fun _ _ => 0)) (firstElection.take 16) 2 1 := by
  refine ⟨by decide +kernel, by decide +kernel, ?_⟩
  have never : ∀ j < 16, (firstElection.take 16)[j]?.all (fun e =>
      !(exec threeNodes (init threeNodes (fun _ _ => 0)) ((firstElection.take 16).take j)).leadsDuring e 2 1) = true := by
    decide +kernel
  rintro ⟨j, e, at_j, leads⟩
  have early : j < 16 := by
    have bound := (List.getElem?_eq_some_iff.mp at_j).1
    have short : (firstElection.take 16).length ≤ 16 := by simp
    omega
  have not := never j early
  rw [at_j] at not
  simp [leads] at not

end Cluster

end Kvgo

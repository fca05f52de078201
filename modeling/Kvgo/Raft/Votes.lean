import Kvgo.Raft.Boot
import Kvgo.Raft.Inputs

/-! Votes in a run of one node: who backs a node that becomes leader, and to whom a node gives
its vote of a term. Both are properties of the ballot; the code comes in through its inputs. -/

namespace Kvgo

namespace Ballot

variable {b b' : Ballot} {m : Message} {answers : Answers}

/-! The tally of a candidate. -/

def Backed (cast : Nat → Nat → Prop) (b : Ballot) : Prop :=
  b.state = .candidate → ∀ p, b.votes p = some true → p = b.id ∨ cast b.term p

variable {cast : Nat → Nat → Prop}

theorem Backed.of_role (role : b.state ≠ .candidate) : Backed cast b := fun candidate => absurd candidate role

theorem stand_votes {p : Nat} (yes : b.stand.votes p = some true) : p = b.id := by
  by_contra other
  have none : b.stand.votes p = Option.none := Function.update_of_ne other _ _
  rw [none] at yes
  cases yes

theorem stand_backed (b : Ballot) : Backed cast b.stand := fun _ _ yes => .inl (stand_votes yes)

theorem elect_backed (b : Ballot) : Backed cast b.elect := by
  rcases elect_cases b with ⟨leads, same⟩ | ⟨same, _⟩ | same <;> rw [same]
  · exact .of_role (by simp [leads])
  · exact .of_role (by simp [win])
  · exact stand_backed b

theorem record_backed (backed : Backed cast b)
    (now : b.state = .candidate → m.reject = false → cast b.term m.fromId) :
    Backed cast (b.record m.fromId (!m.reject)) := by
  intro role p yes
  by_cases here : p = m.fromId
  · subst here
    rw [show (b.record m.fromId (!m.reject)).votes m.fromId = some (!m.reject) from Function.update_self _ _ _]
      at yes
    exact .inr (now role (by simpa using yes))
  · rw [show (b.record m.fromId (!m.reject)).votes p = b.votes p from Function.update_of_ne here _ _] at yes
    exact backed role p yes

theorem count_backed (backed : Backed cast b)
    (now : b.state = .candidate → b.term ≤ m.term → m.reject = false → cast b.term m.fromId) :
    Backed cast (b.count m) := by
  rcases count_cases b m with same | ⟨fresh, same | same | ⟨_, ⟨_, same⟩ | ⟨_, same⟩⟩⟩ <;> rw [same]
  · exact backed
  · exact record_backed backed (fun role yes => now role fresh yes)
  · exact .of_role (by simp [follow])
  · exact stand_backed _
  · exact .of_role (by simp [win])

def Casts (b : Ballot) (m : Message) : Prop :=
  m.type = .msgVoteResp ∧ m.reject = false ∧ m.term = b.term ∧ b.state = .candidate

theorem casts_of_count (role : (b.checkTerm m).state = .candidate)
    (kind : m.type = (b.checkTerm m).voteRespType) (fresh : (b.checkTerm m).term ≤ m.term)
    (yes : m.reject = false) : b.checkTerm m = b ∧ Casts b m := by
  rcases checkTerm_cases b m with ⟨same, bound⟩ | ⟨same, _⟩
  · rw [same] at role kind fresh
    have response : m.type = .msgVoteResp := by rw [kind, voteRespType, if_pos role]
    refine ⟨same, response, yes, ?_, role⟩
    simp only [response, reduceCtorEq, or_self, or_false] at bound
    omega
  · rw [same] at role
    cases role

theorem checkTerm_backed (backed : Backed cast b) : Backed cast (b.checkTerm m) := by
  rcases checkTerm_cases b m with ⟨same, _⟩ | ⟨same, _⟩ <;> rw [same]
  · exact backed
  · exact .of_role (by simp [follow])

theorem step_backed (backed : Backed cast b) (now : Casts b m → cast b.term m.fromId) :
    Backed cast (b.step answers m) := by
  have moved := step_moved b answers m
  have checked : Backed cast (b.checkTerm m) := checkTerm_backed backed
  generalize b.step answers m = b' at moved
  cases moved with
  | keep => exact checked
  | heed => exact checked
  | vote => exact checked
  | yield => exact .of_role (by simp [follow])
  | abdicate => exact .of_role (by simp [follow])
  | hup =>
    rcases hup_cases (b.checkTerm m) with ⟨leads, same⟩ | ⟨same, _⟩ | same <;> rw [same]
    · exact checked
    · exact elect_backed _
    · exact .of_role (by simp [poll, record])
  | transfer => exact elect_backed _
  | count role kind =>
    refine count_backed checked (fun candidate fresh yes => ?_)
    obtain ⟨same, casts⟩ := casts_of_count candidate kind fresh yes
    rw [same]
    exact now casts

theorem stand_won (some : b.voters.size ≠ 0) (won : b.stand.tally = .voteWon) :
    Majority b.voters.ids (· = b.id) :=
  (MajorityConfig.voteResult_won some won).mono (fun _ _ yes => stand_votes yes)

theorem elect_won (some : b.voters.size ≠ 0) (leads : b.elect.state = .leader) :
    b.state = .leader ∧ b.elect = b ∨ Majority b.voters.ids (· = b.id) := by
  rcases elect_cases b with already | ⟨_, won⟩ | same
  · exact .inl already
  · exact .inr (stand_won some won)
  · rw [same] at leads
    cases leads

/-- A node that a step makes leader of a term has the votes of a majority for it. -/
theorem step_elected (some : b.voters.size ≠ 0) (backed : Backed cast b) (now : Casts b m → cast b.term m.fromId)
    (leads : (b.step answers m).state = .leader)
    (new : ¬ (b.state = .leader ∧ b.term = (b.step answers m).term)) :
    Majority b.voters.ids (fun p => p = b.id ∨ cast (b.step answers m).term p) := by
  have moved := step_moved b answers m
  have checked : Backed cast (b.checkTerm m) := checkTerm_backed backed
  have node : SameNode b (b.checkTerm m) := by
    rcases checkTerm_cases b m with ⟨same, _⟩ | ⟨same, _⟩ <;> rw [same] <;> exact ⟨rfl, rfl⟩
  have led : (b.checkTerm m).state = .leader → b.checkTerm m = b := by
    intro leader
    rcases checkTerm_cases b m with ⟨same, _⟩ | ⟨same, _⟩
    · exact same
    · rw [same] at leader
      cases leader
  have still : (b.checkTerm m).state = .leader → (b.step answers m).term = (b.checkTerm m).term → False := by
    intro leader term
    have same := led leader
    rw [same] at leader term
    exact new ⟨leader, term.symm⟩
  have alone : Majority (b.checkTerm m).voters.ids (· = (b.checkTerm m).id) →
      Majority b.voters.ids (fun p => p = b.id ∨ cast (b.step answers m).term p) := by
    intro most
    rw [node.voters, node.id] at most
    exact most.mono (fun _ _ own => .inl own)
  have size : (b.checkTerm m).voters.size ≠ 0 := by
    rw [node.voters]
    exact some
  generalize b.step answers m = b' at moved leads still alone ⊢
  cases moved with
  | keep => exact absurd rfl (still leads)
  | heed role => simp [role] at leads
  | vote => exact absurd rfl (still leads)
  | yield => cases leads
  | abdicate => cases leads
  | hup =>
    rcases hup_cases (b.checkTerm m) with ⟨leader, same⟩ | ⟨same, _⟩ | same <;> rw [same] at leads
    · exact absurd (by rw [same]) (still leader)
    · rcases elect_won (b := (b.checkTerm m).poll) size leads with ⟨leader, _⟩ | most
      · cases leader
      · exact alone most
    · cases leads
  | transfer role =>
    rcases elect_won size leads with ⟨leader, _⟩ | most
    · simp [role] at leader
    · exact alone most
  | count role kind =>
    rcases count_cases (b.checkTerm m) m with same | ⟨fresh, same | same | ⟨won, ⟨_, same⟩ | ⟨real, same⟩⟩⟩ <;>
      rw [same] at leads
    · rcases role with pre | candidate
      · simp [pre] at leads
      · simp [candidate] at leads
    · rcases role with pre | candidate
      · simp [record, pre] at leads
      · simp [record, candidate] at leads
    · cases leads
    · cases leads
    · have candidate := role.resolve_left real
      have counted : Backed cast ((b.checkTerm m).record m.fromId (!m.reject)) := by
        refine record_backed checked (fun role yes => ?_)
        obtain ⟨same, casts⟩ := casts_of_count role kind fresh yes
        rw [same]
        exact now casts
      have most := MajorityConfig.voteResult_won size won
      rw [same]
      rw [← node.voters, ← node.id]
      exact most.mono (fun p _ yes => counted candidate p yes)

/-! The vote that a node gives. -/

theorem elect_term (b : Ballot) : b.elect.term = b.term ∧ b.elect.votedFor = b.votedFor ∨
    b.elect.term = b.term + 1 := by
  rcases elect_cases b with ⟨_, same⟩ | ⟨same, _⟩ | same <;> rw [same]
  · exact .inl ⟨rfl, rfl⟩
  · exact .inr rfl
  · exact .inr rfl

/-- Behind the check of its term, a message other than a leader's to a campaigning node does
not lower the term, and a term that stands keeps the vote. -/
theorem Moved.vote_stands (moved : Moved b m b') (given : b.votedFor ≠ None) (stands : b'.term = b.term)
    (bound : m.type = .msgVote → m.term ≤ b.term) : b'.votedFor = b.votedFor := by
  cases moved with
  | keep => rfl
  | heed => rfl
  | vote kind can =>
    have old := bound kind
    simp only [canVoteFor, Bool.and_eq_true, Bool.not_eq_true', decide_eq_false_iff_not, Bool.and_eq_false_iff,
      not_not, ne_eq] at can
    rcases can.2 with (other | none) | same
    · omega
    · exact absurd none given
    · exact same.symm
  | yield => exact if_neg (not_not.mpr stands.symm)
  | abdicate => exact if_neg (by simp)
  | hup =>
    rcases hup_cases b with ⟨_, same⟩ | ⟨same, _⟩ | same
    · rw [same]
    · rw [same] at stands ⊢
      rcases elect_term b.poll with ⟨_, kept⟩ | later
      · exact kept
      · have polled : b.poll.term = b.term := rfl
        omega
    · rw [same]
      rfl
  | transfer =>
    rcases elect_term b with ⟨_, kept⟩ | later
    · exact kept
    · omega
  | count =>
    rcases count_cases b m with same | ⟨_, same | same | ⟨_, ⟨_, same⟩ | ⟨_, same⟩⟩⟩ <;> rw [same] at stands ⊢
    · rfl
    · exact if_neg (by simp [record])
    · exact absurd stands (Nat.succ_ne_self b.term)
    · rfl

/-- A step that a later term brought about ends in a later term. -/
theorem Moved.term_le (moved : Moved b m b') (role : b.state = .follower) : b.term ≤ b'.term := by
  cases moved with
  | keep => exact le_rfl
  | heed => exact le_rfl
  | vote => exact le_rfl
  | yield campaigning =>
    rcases campaigning with pre | candidate
    · simp [role] at pre
    · simp [role] at candidate
  | abdicate => exact le_rfl
  | hup =>
    rcases hup_cases b with ⟨_, same⟩ | ⟨same, _⟩ | same <;> rw [same]
    · rcases elect_term b.poll with ⟨same, _⟩ | later
      · exact same.ge
      · have polled : b.poll.term = b.term := rfl
        omega
    · exact le_rfl
  | transfer =>
    rcases elect_term b with ⟨same, _⟩ | later
    · exact same.ge
    · omega
  | count campaigning =>
    rcases campaigning with pre | candidate
    · simp [role] at pre
    · simp [role] at candidate

theorem step_vote_stands (given : b.votedFor ≠ None) (stands : (b.step answers m).term = b.term) :
    (b.step answers m).votedFor = b.votedFor := by
  have moved := step_moved b answers m
  rcases checkTerm_cases b m with ⟨same, bound⟩ | ⟨same, later⟩
  · rw [same] at moved
    refine moved.vote_stands given stands (fun kind => ?_)
    simpa [kind] using bound
  · rw [same] at moved
    have up := moved.term_le rfl
    have raised : (b.follow m.term m.fromId).term = m.term := rfl
    omega

theorem step_preVote (kind : m.type = .msgPreVote) : b.step answers m = b := by
  unfold step checkTerm stepType
  rw [if_neg (fun later => later.2.2 (.inl kind)), kind]

end Ballot

namespace Raft

def moment (r : Raft) (inputs : List Input) (k : Nat) : Raft := Runs.exec next r (inputs.take k)

theorem moment_succ {r : Raft} {inputs : List Input} {k : Nat} {i : Input} (here : inputs[k]? = some i) :
    r.moment inputs (k + 1) = (r.moment inputs k).next i := Runs.exec_take_succ next here

theorem moment_end {r : Raft} {inputs : List Input} {k : Nat} (done : inputs[k]? = none) :
    r.moment inputs (k + 1) = r.moment inputs k := Runs.exec_take_end next done

theorem moment_append (r : Raft) (before after : List Input) {k : Nat} (early : k ≤ before.length) :
    r.moment (before ++ after) k = r.moment before k := by
  rw [moment, moment, List.take_append_of_le_length early]

/-- Node `p` has voted for the node in a term: the granting response was stepped while the node
was a candidate of that term. -/
def Cast (r : Raft) (inputs : List Input) (term p : Nat) : Prop :=
  ∃ j m, inputs[j]? = some (.step m) ∧ m.type = .msgVoteResp ∧ m.fromId = p ∧ m.term = term ∧
    m.reject = false ∧ (r.moment inputs j).state = .candidate ∧ (r.moment inputs j).term = term

theorem Cast.append {r : Raft} {before : List Input} {term p : Nat} (cast : Cast r before term p)
    (after : List Input) : Cast r (before ++ after) term p := by
  obtain ⟨j, m, here, kind, sender, same, yes, role, now⟩ := cast
  have early : j < before.length := (List.getElem?_eq_some_iff.mp here).1
  refine ⟨j, m, ?_, kind, sender, same, yes, ?_, ?_⟩
  · rw [List.getElem?_append_left early, here]
  · rw [moment_append r before after early.le]
    exact role
  · rw [moment_append r before after early.le]
    exact now

/-- A response that reaches a candidate of its term is a vote cast. -/
theorem casts_input {r : Raft} {past : List Input} {i : Input} {m : Message}
    (here : (Runs.exec next r past).message i = some m) (casts : (Runs.exec next r past).ballot.Casts m) :
    Cast r (past ++ [i]) (Runs.exec next r past).term m.fromId := by
  obtain ⟨kind, yes, term, role⟩ := casts
  have stepped : i = .step m := by
    cases i with
    | step m' =>
      simp only [message] at here
      split at here
      · cases here
      · rw [Option.some.inj here]
    | tick =>
      cases here
      unfold timer at kind
      split at kind <;> cases kind
    | propose => cases here; cases kind
    | campaign => cases here; cases kind
    | readIndex => cases here; cases kind
    | accept => cases here
    | advance => cases here
    | store => cases here
  have now : r.moment (past ++ [i]) past.length = Runs.exec next r past := by
    rw [moment_append r past [i] le_rfl, moment, List.take_length]
  refine ⟨past.length, m, ?_, kind, rfl, term, yes, ?_, ?_⟩
  · rw [List.getElem?_append_right le_rfl, Nat.sub_self, stepped]
    rfl
  · rw [now]
    exact role
  · rw [now]

/-- Along a run: the node stays the same, and its tally is backed by the votes cast. -/
structure Counted (r : Raft) (inputs : List Input) (s : Raft) : Prop where
  node : Ballot.SameNode r.ballot s.ballot
  backed : Ballot.Backed (Cast r inputs) s.ballot

theorem run_counted {r : Raft} (start : r.state ≠ .candidate) (inputs : List Input) :
    Counted r inputs (Runs.exec next r inputs) := by
  have any : Runs.Along next (fun _ _ => True) r inputs := Runs.along_of_forall next (fun _ _ => trivial)
  refine Runs.invariant_past next (Counted r) (fun past i counted _ => ?_) ⟨⟨rfl, rfl⟩, .of_role start⟩ any
  have more : Ballot.Backed (Cast r (past ++ [i])) (Runs.exec next r past).ballot :=
    fun role p yes => (counted.backed role p yes).imp_right (fun cast => cast.append [i])
  rcases next_turn (Runs.exec next r past) i with idle | ⟨m, here, ⟨answers, moved⟩, _⟩
  · rw [← idle.ballot] at more
    exact ⟨idle.ballot ▸ counted.node, more⟩
  · have same := Ballot.step_same (Runs.exec next r past).ballot answers m
    rw [← moved] at same
    refine ⟨⟨same.id.trans counted.node.id, same.voters.trans counted.node.voters⟩, ?_⟩
    rw [moved]
    exact Ballot.step_backed more (casts_input here)

/-- A node that becomes leader of a term is backed by a majority of the voters: itself and nodes
whose votes of this term it stepped as a candidate of this term. -/
theorem leadership_backed (cfg : Config) (r : Raft) (started : newRaft cfg = .ok r) (inputs : List Input) (i : Nat)
    (leads : (r.moment inputs (i + 1)).state = .leader)
    (elected : ¬ ((r.moment inputs i).state = .leader ∧
      (r.moment inputs i).term = (r.moment inputs (i + 1)).term)) :
    Majority (buildMajorityConfig cfg.id cfg.peers).ids (fun p => p = cfg.id ∨
      Cast r (inputs.take (i + 1)) (r.moment inputs (i + 1)).term p) := by
  have fresh := newRaft_fresh started
  cases here : inputs[i]? with
  | none =>
    rw [moment_end here] at leads elected
    exact absurd ⟨leads, rfl⟩ elected
  | some input =>
    have counted := run_counted (r := r) (by simp [fresh.state]) (inputs.take i)
    have now : inputs.take (i + 1) = inputs.take i ++ [input] := by rw [List.take_add_one, here]; rfl
    have next := moment_succ (r := r) here
    rcases next_turn (r.moment inputs i) input with idle | ⟨m, message, ⟨answers, moved⟩, _⟩
    · rw [← next] at idle
      have state := congrArg Ballot.state idle.ballot
      have term := congrArg Ballot.term idle.ballot
      exact absurd ⟨state.symm.trans leads, term.symm⟩ elected
    · rw [← next] at moved
      have more : Ballot.Backed (Cast r (inputs.take i ++ [input])) (r.moment inputs i).ballot :=
        fun role p yes => (counted.backed role p yes).imp_right (fun cast => cast.append [input])
      have some : (r.moment inputs i).ballot.voters.size ≠ 0 := by
        rw [show (r.moment inputs i).ballot.voters = r.trk.voters from counted.node.voters, fresh.voters]
        have inside : cfg.id ∈ (buildMajorityConfig cfg.id cfg.peers).ids := List.mem_dedup.mpr (by simp)
        exact (List.length_pos_of_mem inside).ne'
      have state : ((r.moment inputs i).ballot.step answers m).state = .leader := by
        rw [← moved]
        exact leads
      have term : (r.moment inputs (i + 1)).term = ((r.moment inputs i).ballot.step answers m).term := by
        rw [← moved]
        rfl
      rw [term] at elected ⊢
      have most := Ballot.step_elected some more (casts_input message) state elected
      rw [show (r.moment inputs i).ballot.voters = r.trk.voters from counted.node.voters, fresh.voters,
        show (r.moment inputs i).ballot.id = r.id from counted.node.id, fresh.id] at most
      rw [now]
      exact most

theorem election_backed : ∃ r inputs,
    newRaft (Cluster.nodeConfig threeNodes 1 {} (fun _ => 0)) = .ok r ∧ (r.moment inputs 3).state = .leader ∧
      Majority (buildMajorityConfig 1 [2, 3]).ids (fun p => p = 1 ∨
        Cast r (inputs.take 3) (r.moment inputs 3).term p) := by
  obtain ⟨r, started, leads, before⟩ : ∃ r,
      newRaft (Cluster.nodeConfig threeNodes 1 {} (fun _ => 0)) = .ok r ∧
      (r.moment [.campaign, .step { type := .msgPreVoteResp, fromId := 2, toId := 1, term := 1 },
        .step { type := .msgVoteResp, fromId := 2, toId := 1, term := 1 }] 3).state = .leader ∧
      (r.moment [.campaign, .step { type := .msgPreVoteResp, fromId := 2, toId := 1, term := 1 },
        .step { type := .msgVoteResp, fromId := 2, toId := 1, term := 1 }] 2).state = .candidate :=
    ⟨_, rfl, by decide +kernel, by decide +kernel⟩
  exact ⟨r, _, started, leads, leadership_backed _ r started _ 2 leads (by rw [before]; simp)⟩

/-! The vote that a node gives. -/

theorem next_vote_stands {r : Raft} {i : Input} (given : r.votedFor ≠ None) (stands : (r.next i).term = r.term) :
    (r.next i).votedFor = r.votedFor := by
  rcases next_turn r i with idle | ⟨m, _, ⟨answers, moved⟩, _⟩
  · exact congrArg Ballot.votedFor idle.ballot
  · have term := congrArg Ballot.term moved
    have votedFor := congrArg Ballot.votedFor moved
    exact votedFor.trans (Ballot.step_vote_stands given (term.symm.trans stands))

/-- A vote that an input brings about is the vote in the state it leads to. -/
theorem next_grant {r : Raft} {i : Input} {msg : Message} (inside : msg ∈ r.queued (r.next i))
    (vote : isGrant msg = true) :
    ∃ m, i = .step m ∧ m.type = .msgVote ∧ msg.toId = m.fromId ∧ (r.next i).votedFor = m.fromId := by
  rcases next_turn r i with idle | ⟨m, here, _, queues⟩
  · simp [(idle.plain msg inside).1] at vote
  · obtain ⟨kind, target, _, given⟩ := (queues.queued msg inside).1 vote
    refine ⟨m, ?_, kind, target, given⟩
    cases i with
    | step m' =>
      simp only [message] at here
      split at here
      · cases here
      · rw [Option.some.inj here]
    | tick =>
      cases here
      exact absurd kind (timer_type r)
    | propose => cases here; cases kind
    | campaign => cases here; cases kind
    | readIndex => cases here; cases kind
    | accept => cases here
    | advance => cases here
    | store => cases here

/-- While the term stands, in a stretch that starts in any state: a vote once given stays, each
vote that is queued goes to the node voted for, and a request for a pre-vote changes nothing. -/
theorem one_vote_while_term_stands (r : Raft) (inputs : List Input) (term : Nat)
    (stamped : ∀ m, Input.step m ∈ inputs → m.type = .msgVote → m.term ≠ 0 ∧ m.fromId ≠ None)
    (stands : ∀ k, (r.moment inputs k).term = term) :
    (∀ i j, i ≤ j → (r.moment inputs i).votedFor ≠ None →
      (r.moment inputs j).votedFor = (r.moment inputs i).votedFor) ∧
    (∀ i j msg, msg ∈ (r.moment inputs i).queued (r.moment inputs (i + 1)) → isGrant msg = true →
      msg.term = term → (r.moment inputs j).votedFor ≠ None → msg.toId = (r.moment inputs j).votedFor) ∧
    ∀ (s : Raft) (m : Message), m.type = .msgPreVote → (s.next (.step m)).votedFor = s.votedFor := by
  have stays : ∀ i j, i ≤ j → (r.moment inputs i).votedFor ≠ None →
      (r.moment inputs j).votedFor = (r.moment inputs i).votedFor := by
    intro i j order given
    induction j, order using Nat.le_induction with
    | base => rfl
    | succ j _ ih =>
      cases here : inputs[j]? with
      | none => rw [moment_end here, ih]
      | some input =>
        rw [moment_succ here, ← ih]
        refine next_vote_stands (by rw [ih]; exact given) ?_
        rw [← moment_succ here, stands, stands]
  refine ⟨stays, fun i j msg inside vote _ given => ?_, fun s m kind => ?_⟩
  · cases here : inputs[i]? with
    | none =>
      rw [moment_end here, queued_self] at inside
      cases inside
    | some input =>
      rw [moment_succ here] at inside
      obtain ⟨m, stepped, kind, target, now⟩ := next_grant inside vote
      have sender := (stamped m (stepped ▸ List.mem_of_getElem? here) kind).2
      rw [← moment_succ here] at now
      have next : (r.moment inputs (i + 1)).votedFor ≠ None := by rwa [now]
      rcases Nat.le_total (i + 1) j with later | earlier
      · rw [target, stays (i + 1) j later next, now]
      · rw [target, ← now, stays j (i + 1) earlier given]
  · rcases next_turn s (.step m) with idle | ⟨m', here, ⟨answers, moved⟩, _⟩
    · exact congrArg Ballot.votedFor idle.ballot
    · have same : m' = m := by
        simp only [message] at here
        split at here
        · cases here
        · exact (Option.some.inj here).symm
      rw [same, Ballot.step_preVote kind] at moved
      exact congrArg Ballot.votedFor moved

/-- Two requests of one term reach a node; the second is refused. -/
theorem second_request_refused : ∃ r inputs,
    newRaft (Cluster.nodeConfig threeNodes 1 { hd := { term := 1 } } (fun _ => 0)) = .ok r ∧
      (r.moment inputs 1).votedFor = 2 ∧ (r.moment inputs 2).votedFor = (r.moment inputs 1).votedFor := by
  obtain ⟨r, started, terms, given⟩ : ∃ r,
      newRaft (Cluster.nodeConfig threeNodes 1 { hd := { term := 1 } } (fun _ => 0)) = .ok r ∧
      (∀ k ≤ 2, (r.moment [.step { type := .msgVote, fromId := 2, toId := 1, term := 1 },
        .step { type := .msgVote, fromId := 3, toId := 1, term := 1 }] k).term = 1) ∧
      (r.moment [.step { type := .msgVote, fromId := 2, toId := 1, term := 1 },
        .step { type := .msgVote, fromId := 3, toId := 1, term := 1 }] 1).votedFor = 2 :=
    ⟨_, rfl, by decide +kernel, by decide +kernel⟩
  refine ⟨r, _, started, given, (one_vote_while_term_stands r _ 1 ?_ (fun k => ?_)).1 1 2 (by simp) ?_⟩
  · intro m inside _
    simp only [List.mem_cons, Input.step.injEq, List.not_mem_nil, or_false] at inside
    rcases inside with rfl | rfl <;> simp
  · rcases Nat.lt_or_ge 2 k with late | early
    · have last := terms 2 le_rfl
      rw [moment, List.take_of_length_le (by simp)] at last
      rw [moment, List.take_of_length_le (by simpa using late.le)]
      exact last
    · exact terms k early
  · rw [given]
    simp

end Raft

end Kvgo

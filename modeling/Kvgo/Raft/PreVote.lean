import Kvgo.Raft.Votes

/-! The pre-vote. A node that times out first asks whether it would be elected, and raises its
term only with a majority behind it. Responses do not name the request they answer, so each
delivery carries the round of the request in a field that the node does not see. -/

namespace Kvgo

namespace Ballot

variable {b : Ballot} {m : Message} {answers : Answers}

theorem poll_votes {p : Nat} (yes : b.poll.votes p = some true) : p = b.id ∨ b.votes p = some true := by
  by_cases own : p = b.id
  · exact .inl own
  · rw [show b.poll.votes p = b.votes p from Function.update_of_ne own _ _] at yes
    exact .inr yes

/-- A timeout raises the term only if the tally it finds is a majority with the node's own vote. -/
theorem hup_raised (nonempty : b.voters.size ≠ 0) (raised : b.term < b.hup.term) :
    b.hup.term = b.term + 1 ∧ Majority b.voters.ids (fun p => p = b.id ∨ b.votes p = some true) := by
  rcases hup_cases b with ⟨_, same⟩ | ⟨same, won⟩ | same
  · simp [same] at raised
  · refine ⟨?_, (MajorityConfig.voteResult_won nonempty won).mono (fun _ _ yes => poll_votes yes)⟩
    rw [same] at raised ⊢
    have polled : b.poll.term = b.term := rfl
    rcases elect_term b.poll with ⟨kept, _⟩ | later <;> omega
  · have polled : b.hup.term = b.term := by
      rw [same]
      rfl
    omega

theorem checkTerm_preVoteResp (kind : m.type = .msgPreVoteResp) : b.checkTerm m = b :=
  if_neg (fun later => later.2.2 (.inr kind))

/-- A pre-vote response raises the term only if it completes a majority of the tally. -/
theorem preVoteResp_raised (nonempty : b.voters.size ≠ 0) (kind : m.type = .msgPreVoteResp)
    (raised : b.term < (b.step answers m).term) :
    b.state = .preCandidate ∧ b.term ≤ m.term ∧ (b.step answers m).term = b.term + 1 ∧
      Majority b.voters.ids (fun p => b.votes p = some true ∨ p = m.fromId ∧ m.reject = false) := by
  have moved := step_moved b answers m
  rw [checkTerm_preVoteResp kind] at moved
  generalize b.step answers m = b' at moved raised ⊢
  cases moved with
  | keep => simp at raised
  | heed => simp at raised
  | vote => simp at raised
  | yield _ hail => simp [isHail, kind] at hail
  | abdicate => simp [follow] at raised
  | hup other => simp [kind] at other
  | transfer _ other => simp [kind] at other
  | count role awaited =>
    have pre : b.state = .preCandidate := by
      refine role.resolve_right (fun candidate => ?_)
      simp [voteRespType, candidate, kind] at awaited
    rcases count_cases b m with same | ⟨fresh, same | same | ⟨won, ⟨_, same⟩ | ⟨real, _⟩⟩⟩
    · simp [same] at raised
    · simp [same, record] at raised
    · simp [same, record, follow] at raised
    · refine ⟨pre, fresh, by rw [same]; rfl, ?_⟩
      refine (MajorityConfig.voteResult_won nonempty won).mono (fun p _ yes => ?_)
      by_cases here : p = m.fromId
      · subst here
        rw [show (b.record m.fromId (!m.reject)).votes m.fromId = some (!m.reject) from
          Function.update_self _ _ _] at yes
        exact .inr ⟨rfl, by simpa using yes⟩
      · rw [show (b.record m.fromId (!m.reject)).votes p = b.votes p from Function.update_of_ne here _ _] at yes
        exact .inl yes
    · exact absurd pre real

/-- A step that is not a timeout and ends in a pre-election goes on with the one it finds. -/
theorem step_polls (kind : m.type ≠ .msgHup) (polls : (b.step answers m).state = .preCandidate) :
    b.state = .preCandidate ∧ (b.step answers m).term = b.term ∧
      ∀ p, (b.step answers m).votes p = some true → b.votes p = some true ∨
        p = m.fromId ∧ m.type = .msgPreVoteResp ∧ m.reject = false ∧ b.term ≤ m.term := by
  have moved := step_moved b answers m
  rcases checkTerm_cases b m with ⟨same, _⟩ | ⟨same, _⟩
  · rw [same] at moved
    generalize b.step answers m = b' at moved polls ⊢
    cases moved with
    | keep => exact ⟨polls, rfl, fun _ => .inl⟩
    | heed => exact ⟨polls, rfl, fun _ => .inl⟩
    | vote => exact ⟨polls, rfl, fun _ => .inl⟩
    | yield => cases polls
    | abdicate => cases polls
    | hup hup => exact absurd hup kind
    | transfer role =>
      rcases elect_cases b with ⟨_, same⟩ | ⟨same, _⟩ | same <;> rw [same] at polls
      · simp [role] at polls
      · cases polls
      · cases polls
    | count role awaited =>
      rcases count_cases b m with same | ⟨fresh, same | same | ⟨_, ⟨_, same⟩ | ⟨_, same⟩⟩⟩ <;>
        rw [same] at polls ⊢
      · exact ⟨polls, rfl, fun _ => .inl⟩
      · have pre : b.state = .preCandidate := polls
        refine ⟨pre, rfl, fun p yes => ?_⟩
        by_cases here : p = m.fromId
        · subst here
          rw [show (b.record m.fromId (!m.reject)).votes m.fromId = some (!m.reject) from
            Function.update_self _ _ _] at yes
          exact .inr ⟨rfl, by rw [awaited, voteRespType, if_neg (by simp [pre])], by simpa using yes, fresh⟩
        · rw [show (b.record m.fromId (!m.reject)).votes p = b.votes p from Function.update_of_ne here _ _] at yes
          exact .inl yes
      · cases polls
      · cases polls
      · cases polls
  · rw [same] at moved
    generalize b.step answers m = b' at moved polls
    cases moved with
    | keep => cases polls
    | heed => cases polls
    | vote => cases polls
    | yield => cases polls
    | abdicate => cases polls
    | hup hup => exact absurd hup kind
    | transfer role =>
      rcases elect_cases (b.follow m.term m.fromId) with ⟨leads, _⟩ | ⟨same, _⟩ | same
      · cases leads
      · rw [same] at polls
        cases polls
      · rw [same] at polls
        cases polls
    | count role =>
      rcases role with pre | candidate
      · cases pre
      · cases candidate

def isQuiet (m : Message) : Prop :=
  m.term = 0 ∧ (m.type = .msgProp ∨ m.type = .msgReadIndex ∨ m.type = .msgCheckQuorum)

theorem step_quiet (quiet : isQuiet m) : (b.step answers m).term = b.term := by
  obtain ⟨zero, kind⟩ := quiet
  have moved := step_moved b answers m
  rw [show b.checkTerm m = b from if_neg (fun later => later.1 zero)] at moved
  generalize b.step answers m = b' at moved ⊢
  cases moved with
  | keep => rfl
  | heed => rfl
  | vote => rfl
  | yield _ hail => rcases kind with kind | kind | kind <;> simp [isHail, kind] at hail
  | abdicate => rfl
  | hup hup => rcases kind with kind | kind | kind <;> simp [kind] at hup
  | transfer _ now => rcases kind with kind | kind | kind <;> simp [kind] at now
  | count _ awaited =>
    unfold voteRespType at awaited
    rcases kind with kind | kind | kind <;> rw [kind] at awaited <;> split at awaited <;> cases awaited

end Ballot

namespace Raft

def fires (r : Raft) : Input → Bool
  | .campaign => decide (r.state ≠ .leader)
  | .tick => decide (r.state ≠ .leader) && decide (r.randomizedElectionTimeout ≤ r.electionElapsed + 1)
  | _ => false

theorem step_hup {r r' : Raft} {m : Message} {e : Option StepError} (kind : m.type = .msgHup) (zero : m.term = 0)
    (ok : r.step m = .ok (r', e)) : r'.ballot = r.ballot.hup := by
  obtain ⟨answers, moved, _⟩ := step_ballot ok
  rw [moved]
  unfold Ballot.step Ballot.checkTerm Ballot.stepType
  rw [if_neg (fun later => later.1 zero), kind]

theorem play_fires {r r' : Raft} {i : Input} (fires : r.fires i = true) (ok : r.play i = .ok r') :
    r'.ballot = r.ballot.hup := by
  cases i with
  | campaign =>
    obtain ⟨⟨r1, e⟩, stepped, done⟩ := Outcome.bind_eq_ok.mp ok
    cases done
    exact step_hup rfl rfl stepped
  | tick =>
    simp only [Raft.fires, Bool.and_eq_true, decide_eq_true_eq] at fires
    simp only [play, tick, tickElection] at ok
    rw [if_neg fires.1, if_pos fires.2] at ok
    obtain ⟨e, stepped⟩ := stepQuietly_eq_ok ok
    exact (step_hup rfl rfl stepped).trans rfl
  | _ => cases fires

/-- An input that starts no pre-election is no timeout for the ballot. -/
theorem play_calm {r r' : Raft} {i : Input} (calm : r.fires i = false) (ok : r.play i = .ok r') :
    r'.ballot = r.ballot ∨ ∃ m answers, m.type ≠ .msgHup ∧ (i = .step m ∨ Ballot.isQuiet m) ∧
      r'.ballot = r.ballot.step answers m := by
  have here : r.next i = r' := by rw [next, ok]
  have turn := next_turn r i
  rw [here] at turn
  rcases turn with idle | ⟨m, carried, ⟨answers, moved⟩, _⟩
  · exact .inl idle.ballot
  cases i with
  | step m' =>
    simp only [message] at carried
    split at carried
    · cases carried
    · rename_i foreign
      cases carried
      exact .inr ⟨m, answers, fun hup => foreign (by simp [isLocalMsg, hup]), .inl rfl, moved⟩
  | propose => cases carried; exact .inr ⟨_, answers, by simp, .inr (by simp [Ballot.isQuiet]), moved⟩
  | readIndex => cases carried; exact .inr ⟨_, answers, by simp, .inr (by simp [Ballot.isQuiet]), moved⟩
  | campaign =>
    cases carried
    simp only [fires, decide_eq_false_iff_not, not_not] at calm
    obtain ⟨⟨r1, e⟩, stepped, done⟩ := Outcome.bind_eq_ok.mp ok
    cases done
    rw [step_hup rfl rfl stepped]
    exact .inl (if_pos calm)
  | tick =>
    cases carried
    by_cases leads : r.state = .leader
    · exact .inr ⟨r.timer, answers, by simp [timer, leads], .inr (by simp [Ballot.isQuiet, timer, leads]), moved⟩
    · simp only [fires, leads, not_false_eq_true, decide_true, Bool.true_and, ne_eq, decide_eq_false_iff_not] at calm
      simp only [play, tick, tickElection] at ok
      rw [if_neg leads, if_neg calm] at ok
      cases ok
      exact .inl rfl
  | accept => cases carried
  | advance => cases carried
  | store => cases carried

end Raft

/-- An input, and the round of the request that it answers if it is a pre-vote response. -/
structure Delivery where
  input : Raft.Input
  round : Nat := 0

structure Campaigner where
  r : Raft
  round : Nat := 0

namespace Campaigner

def step (c : Campaigner) (d : Delivery) : Campaigner :=
  match c.r.play d.input with
  | .ok r => { r, round := if c.r.fires d.input then c.round + 1 else c.round }
  | .error _ => c

def Granted (past : List Delivery) (round term p : Nat) : Prop :=
  ∃ m, Delivery.mk (.step m) round ∈ past ∧ m.type = .msgPreVoteResp ∧ m.reject = false ∧ m.fromId = p ∧
    m.term = term

def Preliminary : Raft.Input → Prop
  | .campaign => True
  | .tick => True
  | .step m => m.type = .msgPreVoteResp
  | _ => False

def Clear (c : Campaigner) (d : Delivery) : Prop :=
  c.r.fires d.input = true → ∀ p ∈ c.r.trk.voters.ids, c.r.trk.votes p = some true → p = c.r.id

instance (c : Campaigner) (d : Delivery) : Decidable (Clear c d) :=
  inferInstanceAs (Decidable (_ → _))

/-- A grant that a pre-candidate counts answers a request of the present round, and is for the
next term. -/
def Timely (c : Campaigner) : Delivery → Prop
  | ⟨.step m, round⟩ => m.type = .msgPreVoteResp → m.reject = false → c.r.state = .preCandidate →
      c.r.term ≤ m.term → m.term = c.r.term + 1 ∧ round = c.round
  | _ => True

instance decidableTimely (c : Campaigner) : (d : Delivery) → Decidable (Timely c d)
  | ⟨.step m, round⟩ => inferInstanceAs (Decidable (m.type = .msgPreVoteResp → m.reject = false →
      c.r.state = .preCandidate → c.r.term ≤ m.term → m.term = c.r.term + 1 ∧ round = c.round))
  | ⟨.propose _, _⟩ => inferInstanceAs (Decidable True)
  | ⟨.campaign, _⟩ => inferInstanceAs (Decidable True)
  | ⟨.readIndex _, _⟩ => inferInstanceAs (Decidable True)
  | ⟨.tick, _⟩ => inferInstanceAs (Decidable True)
  | ⟨.accept, _⟩ => inferInstanceAs (Decidable True)
  | ⟨.advance _, _⟩ => inferInstanceAs (Decidable True)
  | ⟨.store _, _⟩ => inferInstanceAs (Decidable True)

def Orderly (c : Campaigner) (d : Delivery) : Prop := Clear c d ∧ Timely c d

instance (c : Campaigner) (d : Delivery) : Decidable (Orderly c d) :=
  inferInstanceAs (Decidable (Clear c d ∧ Timely c d))

/-- The input does nothing to the ballot, or is a timeout, or another step. -/
theorem step_cases (c : Campaigner) (d : Delivery) :
    (c.step d).r.ballot = c.r.ballot ∧ (c.step d).round = c.round ∨
      c.r.fires d.input = true ∧ (c.step d).r.ballot = c.r.ballot.hup ∧ (c.step d).round = c.round + 1 ∨
      (c.step d).round = c.round ∧ ∃ m answers, m.type ≠ .msgHup ∧ (d.input = .step m ∨ Ballot.isQuiet m) ∧
        (c.step d).r.ballot = c.r.ballot.step answers m := by
  unfold step
  cases played : c.r.play d.input with
  | error p => exact .inl ⟨rfl, rfl⟩
  | ok r =>
    dsimp only
    cases fires : c.r.fires d.input with
    | true => exact .inr (.inl ⟨rfl, Raft.play_fires fires played, rfl⟩)
    | false =>
      rcases Raft.play_calm fires played with same | ⟨m, answers, other, here, moved⟩
      · exact .inl ⟨same, rfl⟩
      · exact .inr (.inr ⟨rfl, m, answers, other, here, moved⟩)

/-- Along a run: the tally of a pre-candidate holds grants of the present round for the next
term. -/
structure Polled (cfg : Config) (past : List Delivery) (c : Campaigner) : Prop where
  id : c.r.id = cfg.id
  voters : c.r.trk.voters = buildMajorityConfig cfg.id cfg.peers
  tally : c.r.state = .preCandidate → ∀ p ∈ c.r.trk.voters.ids, c.r.trk.votes p = some true →
    p = c.r.id ∨ Granted past c.round (c.r.term + 1) p

theorem Granted.append {past : List Delivery} {round term p : Nat} (granted : Granted past round term p)
    (more : List Delivery) : Granted (past ++ more) round term p := by
  obtain ⟨m, inside, rest⟩ := granted
  exact ⟨m, List.mem_append_left _ inside, rest⟩

theorem timely_granted {c : Campaigner} {d : Delivery} {m : Message} (past : List Delivery) (timely : Timely c d)
    (here : d.input = .step m ∨ Ballot.isQuiet m) (kind : m.type = .msgPreVoteResp) (yes : m.reject = false)
    (polls : c.r.state = .preCandidate) (fresh : c.r.term ≤ m.term) :
    Granted (past ++ [d]) c.round (c.r.term + 1) m.fromId := by
  obtain ⟨input, round⟩ := d
  obtain rfl : input = .step m := here.resolve_right (fun quiet => by simp [Ballot.isQuiet, kind] at quiet)
  obtain ⟨term, now⟩ := timely kind yes polls fresh
  exact ⟨m, by simp [now], kind, yes, rfl, term⟩

theorem Polled.step {cfg : Config} {past : List Delivery} {c : Campaigner} {d : Delivery}
    (polled : Polled cfg past c) (orderly : Orderly c d) : Polled cfg (past ++ [d]) (c.step d) := by
  obtain ⟨clear, timely⟩ := orderly
  have old : c.r.state = .preCandidate → ∀ p ∈ c.r.trk.voters.ids, c.r.trk.votes p = some true →
      p = c.r.id ∨ Granted (past ++ [d]) c.round (c.r.term + 1) p :=
    fun polls p voter yes => (polled.tally polls p voter yes).imp_right (fun granted => granted.append [d])
  have carry : ∀ b, (c.step d).r.ballot = b → Ballot.SameNode c.r.ballot b →
      (b.state = .preCandidate → ∀ p ∈ c.r.trk.voters.ids, b.votes p = some true →
        p = c.r.id ∨ Granted (past ++ [d]) (c.step d).round (b.term + 1) p) →
      Polled cfg (past ++ [d]) (c.step d) := by
    rintro _ rfl node tally
    refine ⟨node.id.trans polled.id, node.voters.trans polled.voters, fun polls p voter yes => ?_⟩
    rw [show (c.step d).r.trk.voters = c.r.trk.voters from node.voters] at voter
    rw [show (c.step d).r.id = c.r.id from node.id]
    exact tally polls p voter yes
  rcases step_cases c d with ⟨same, round⟩ | ⟨fires, moved, _⟩ | ⟨round, m, answers, other, here, moved⟩
  · refine carry _ same ⟨rfl, rfl⟩ ?_
    rw [round]
    exact old
  · refine carry _ moved (Ballot.Moved.hup (m := { type := .msgHup }) rfl).same (fun polls p voter yes => ?_)
    rcases Ballot.hup_cases c.r.ballot with ⟨leads, same⟩ | ⟨same, _⟩ | same <;> rw [same] at polls yes
    · simp [leads] at polls
    · rcases Ballot.elect_cases c.r.ballot.poll with ⟨leads, _⟩ | ⟨same, _⟩ | same
      · cases leads
      · rw [same] at polls
        cases polls
      · rw [same] at polls
        cases polls
    · rcases Ballot.poll_votes yes with own | found
      · exact .inl own
      · exact .inl (clear fires p voter found)
  · refine carry _ moved (Ballot.step_same _ _ _) (fun polls p voter yes => ?_)
    obtain ⟨pre, term, votes⟩ := Ballot.step_polls other polls
    rw [round, term]
    rcases votes p yes with before | ⟨rfl, kind, granted, fresh⟩
    · exact old pre p voter before
    · exact .inr (timely_granted past timely here kind granted pre fresh)

/-- The gate of the pre-vote. In a run whose inputs are all orderly, a timeout or a pre-vote
response that raises the term has a majority behind it: the node itself and nodes that
granted a pre-vote of the present round for the term it moves to. -/
theorem preVote_gate (cfg : Config) (r : Raft) (started : Raft.newRaft cfg = .ok r) (ds : List Delivery)
    (orderly : Runs.Along step Orderly ⟨r, 0⟩ ds) (past : List Delivery) (d : Delivery) (rest : List Delivery)
    (split : ds = past ++ d :: rest) (preliminary : Preliminary d.input)
    (raised : (Runs.exec step ⟨r, 0⟩ past).r.term < (Runs.exec step ⟨r, 0⟩ (past ++ [d])).r.term) :
    Majority (buildMajorityConfig cfg.id cfg.peers).ids (fun p => p = cfg.id ∨
      Granted (past ++ [d]) (Runs.exec step ⟨r, 0⟩ (past ++ [d])).round
        (Runs.exec step ⟨r, 0⟩ (past ++ [d])).r.term p) := by
  have fresh := Raft.newRaft_fresh started
  rw [split, Runs.along_append] at orderly
  have polled : Polled cfg past (Runs.exec step ⟨r, 0⟩ past) :=
    Runs.invariant_past step (Polled cfg) (fun _ _ polled orderly => polled.step orderly)
      ⟨fresh.id, fresh.voters, by simp [fresh.state]⟩ orderly.1
  obtain ⟨clear, timely⟩ := orderly.2.1
  rw [show Runs.exec step ⟨r, 0⟩ (past ++ [d]) = (Runs.exec step ⟨r, 0⟩ past).step d from
    Runs.exec_append step _ _ _] at raised ⊢
  generalize Runs.exec step ⟨r, 0⟩ past = c at polled clear timely raised ⊢
  have nonempty : c.r.ballot.voters.size ≠ 0 := by
    rw [show c.r.ballot.voters = _ from polled.voters]
    have inside : cfg.id ∈ (buildMajorityConfig cfg.id cfg.peers).ids := List.mem_dedup.mpr (by simp)
    exact (List.length_pos_of_mem inside).ne'
  rw [← polled.voters, ← polled.id]
  rcases step_cases c d with ⟨same, _⟩ | ⟨fires, moved, _⟩ | ⟨round, m, answers, _, here, moved⟩
  · have term : (c.step d).r.term = c.r.term := congrArg Ballot.term same
    omega
  · have term : (c.step d).r.term = c.r.ballot.hup.term := congrArg Ballot.term moved
    rw [term] at raised
    refine (Ballot.hup_raised nonempty raised).2.mono (fun p voter yes => .inl ?_)
    rcases yes with own | found
    · exact own
    · exact clear fires p voter found
  · have term : (c.step d).r.term = (c.r.ballot.step answers m).term := congrArg Ballot.term moved
    rw [term] at raised
    by_cases kind : m.type = .msgPreVoteResp
    · obtain ⟨pre, late, next, most⟩ := Ballot.preVoteResp_raised nonempty kind raised
      rw [round, term, next]
      refine most.mono (fun p voter yes => ?_)
      rcases yes with before | ⟨rfl, granted⟩
      · exact (polled.tally pre p voter before).imp_right (fun granted => granted.append [d])
      · exact .inr (timely_granted past timely here kind granted pre late)
    · rcases here with stepped | quiet
      · rw [stepped] at preliminary
        exact absurd preliminary kind
      · have still : (c.r.ballot.step answers m).term = c.r.ballot.term := Ballot.step_quiet quiet
        have now : c.r.ballot.term = c.r.term := rfl
        omega

def grantOf (p round : Nat) : Delivery :=
  ⟨.step { type := .msgPreVoteResp, fromId := p, toId := 1, term := 1 }, round⟩

theorem oneRound_gate : ∃ r, Raft.newRaft (Cluster.nodeConfig threeNodes 1 {} (fun _ => 0)) = .ok r ∧
    (Runs.exec step ⟨r, 0⟩ [⟨.campaign, 0⟩, grantOf 2 1]).r.term = 1 ∧
    Majority (buildMajorityConfig 1 [2, 3]).ids (fun p => p = 1 ∨
      Granted [⟨.campaign, 0⟩, grantOf 2 1] (Runs.exec step ⟨r, 0⟩ [⟨.campaign, 0⟩, grantOf 2 1]).round
        (Runs.exec step ⟨r, 0⟩ [⟨.campaign, 0⟩, grantOf 2 1]).r.term p) := by
  obtain ⟨r, started, orderly, before, after⟩ : ∃ r,
      Raft.newRaft (Cluster.nodeConfig threeNodes 1 {} (fun _ => 0)) = .ok r ∧
      Runs.Along step Orderly ⟨r, 0⟩ [⟨.campaign, 0⟩, grantOf 2 1] ∧
      (Runs.exec step ⟨r, 0⟩ [⟨.campaign, 0⟩]).r.term = 0 ∧
      (Runs.exec step ⟨r, 0⟩ [⟨.campaign, 0⟩, grantOf 2 1]).r.term = 1 :=
    ⟨_, rfl, by decide +kernel, by decide +kernel, by decide +kernel⟩
  refine ⟨r, started, after, preVote_gate _ r started _ orderly [⟨.campaign, 0⟩] (grantOf 2 1) [] rfl rfl ?_⟩
  rw [before]
  exact after.ge

def oneOfFive : Config where
  id := 1
  peers := [2, 3, 4, 5]
  storage := {}
  applied := 0
  electionTick := 10
  heartbeatTick := 1
  rng := fun _ => 0

/-- A grant of the first round is still in the tally of the second, where one more grant is
then a majority. -/
theorem oldGrant_counts : ∃ r, Raft.newRaft oneOfFive = .ok r ∧
    (Runs.exec step ⟨r, 0⟩ [⟨.campaign, 0⟩, grantOf 2 1, ⟨.campaign, 0⟩]).r.term = 0 ∧
    (Runs.exec step ⟨r, 0⟩ [⟨.campaign, 0⟩, grantOf 2 1, ⟨.campaign, 0⟩, grantOf 3 2]).r.term = 1 ∧
    (Runs.exec step ⟨r, 0⟩ [⟨.campaign, 0⟩, grantOf 2 1, ⟨.campaign, 0⟩, grantOf 3 2]).round = 2 ∧
    ¬ Majority (buildMajorityConfig 1 [2, 3, 4, 5]).ids (fun p => p = 1 ∨
      Granted [⟨.campaign, 0⟩, grantOf 2 1, ⟨.campaign, 0⟩, grantOf 3 2] 2 1 p) := by
  refine ⟨_, rfl, by decide +kernel, by decide +kernel, by decide +kernel, fun most => ?_⟩
  have few : Majority (buildMajorityConfig 1 [2, 3, 4, 5]).ids (fun p => p = 1 ∨ p = 3) := by
    refine most.mono (fun p _ counted => counted.imp_right (fun granted => ?_))
    obtain ⟨m, inside, _, _, rfl, _⟩ := granted
    simp only [grantOf, List.mem_cons, Delivery.mk.injEq, reduceCtorEq, Raft.Input.step.injEq,
      Nat.reduceEqDiff, and_false, and_true, List.not_mem_nil, or_false, false_or] at inside
    rw [inside]
  exact absurd (Majority.iff_countP.mp few) (by decide)

end Campaigner

end Kvgo

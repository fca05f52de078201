import Kvgo.Raft.Votes

/-! What a leader believes about its peers. `MatchIndex` and `NextIndex` are assigned from each
append response as it comes, so they stay in order as long as the responses do; the rest of
the node never touches them between two elections. -/

namespace Kvgo

namespace Raft

def cell (r : Raft) (q : Nat) : Option (Nat × Nat) :=
  (r.trk.progress q).map (fun p => (p.matchIndex, p.nextIndex))

def Bounded (r : Raft) : Prop := ∀ q x, r.cell q = some x → x.1 < x.2 ∧ x.2 ≤ r.raftLog.lastIndex + 1

structure Level (r r' : Raft) : Prop where
  cells : ∀ q, r'.cell q = r.cell q
  last : r.raftLog.lastIndex ≤ r'.raftLog.lastIndex

/-- The append response `m` has been recorded. -/
structure Acked (r : Raft) (m : Message) (r' : Raft) : Prop where
  kind : m.type = .msgAppResp
  bound : m.term ≤ r.term
  sender : ∃ p, r.trk.progress m.fromId = some p ∧
    r'.cell m.fromId = some ((ackedProgress p m).matchIndex, (ackedProgress p m).nextIndex)
  others : ∀ q, q ≠ m.fromId → r'.cell q = r.cell q
  last : r.raftLog.lastIndex ≤ r'.raftLog.lastIndex

/-- What a call of `Step` in state `r0` can have done to the progress of the peers. -/
structure Tracks (r0 : Raft) (m : Message) (s : Raft) : Prop where
  later : r0.state = .leader → r0.term ≤ s.term
  fresh : ¬ (r0.state = .leader ∧ s.term = r0.term) → s.state = .leader → s.Bounded
  still : r0.state = .leader → s.term = r0.term →
    s.state ≠ .candidate ∧ (s.state = .leader → Level r0 s ∨ Acked r0 m s)

/-- Two states that differ in nothing the progress of the peers depends on. -/
structure Even (s s' : Raft) : Prop where
  term : s'.term = s.term
  state : s'.state = s.state
  cells : ∀ q, s'.cell q = s.cell q
  last : s.raftLog.lastIndex ≤ s'.raftLog.lastIndex

variable {r0 s s' : Raft} {m : Message}

theorem Bounded.even (bounded : s.Bounded) (even : Even s s') : s'.Bounded := by
  intro q x here
  rw [even.cells] at here
  have := bounded q x here
  have := even.last
  omega

theorem Tracks.refl (r : Raft) (m : Message) : Tracks r m r where
  later _ := le_rfl
  fresh other leads := absurd ⟨leads, rfl⟩ other
  still leads _ := ⟨by simp [leads], fun _ => .inl ⟨fun _ => rfl, le_rfl⟩⟩

theorem Tracks.even (tracks : Tracks r0 m s) (even : Even s s') : Tracks r0 m s' where
  later leads := even.term ▸ tracks.later leads
  fresh other leads := by
    rw [even.term] at other
    exact (tracks.fresh other (even.state ▸ leads)).even even
  still leads same := by
    rw [even.term] at same
    rw [even.state]
    refine ⟨(tracks.still leads same).1, fun role => ?_⟩
    rcases (tracks.still leads same).2 role with level | acked
    · exact .inl ⟨fun q => (even.cells q).trans (level.cells q), level.last.trans even.last⟩
    · obtain ⟨p, found, now⟩ := acked.sender
      exact .inr ⟨acked.kind, acked.bound, ⟨p, found, (even.cells _).trans now⟩,
        fun q other => (even.cells q).trans (acked.others q other), acked.last.trans even.last⟩

theorem Tracks.aside (tracks : Tracks r0 m s) (term : s'.term = s.term) (role : s'.state ≠ .leader)
    (other : s'.state ≠ .candidate) : Tracks r0 m s' where
  later leads := term ▸ tracks.later leads
  fresh _ leads := absurd leads role
  still _ _ := ⟨other, fun leads => absurd leads role⟩

theorem Tracks.raised (tracks : Tracks r0 m s) (later : s.term < s'.term)
    (bounded : s'.state = .leader → s'.Bounded) : Tracks r0 m s' where
  later leads := (tracks.later leads).trans later.le
  fresh _ leads := bounded leads
  still leads same := by
    have before := tracks.later leads
    omega

theorem even_enqueue (s : Raft) (msg : Message) : Even s (s.enqueue msg) := by
  constructor <;> simp [cell]

theorem even_of_eq (term : s'.term = s.term) (state : s'.state = s.state) (trk : s'.trk.progress = s.trk.progress)
    (log : s'.raftLog.lastIndex = s.raftLog.lastIndex) : Even s s' :=
  ⟨term, state, fun q => by rw [cell, cell, trk], log.ge⟩

theorem even_soft (same : Soft s s') : Even s s' :=
  ⟨same.term, same.state, same.progress, by rw [same.raftLog]⟩

theorem even_appendEntry {data : Bytes} (ok : s.appendEntry data = .ok s') : Even s s' := by
  obtain ⟨_, term, trk⟩ := appendEntry_rest ok
  refine ⟨term, appendEntry_state ok, fun q => by rw [cell, cell, trk], ?_⟩
  rw [appendEntry_lastIndex ok]
  omega

theorem commitTo_lastIndex {l l' : RaftLog} {i : Nat} (ok : l.commitTo i = .ok l') : l'.lastIndex = l.lastIndex := by
  rcases RaftLog.commitTo_eq_ok ok with ⟨_, rfl⟩ | ⟨_, _, rfl⟩ <;> rfl

theorem TookLead.bounded {led : Raft} (took : TookLead s led) : led.Bounded := by
  intro q x here
  rw [cell, took.progress] at here
  obtain ⟨_, _, rfl⟩ := Option.map_eq_some_iff.mp here
  rw [took.raftLog]
  refine ⟨?_, le_rfl⟩
  dsimp only
  split <;> omega

theorem Tracks.ack (tracks : Tracks r0 m s) {p : Progress} (kind : m.type = .msgAppResp) (bound : m.term ≤ s.term)
    (tracked : s.trk.progress m.fromId = some p) (role : s.state = .leader)
    (start : r0.state = .leader ∧ r0.term = s.term ∧
      ∃ p0, r0.trk.progress m.fromId = some p0 ∧ p0.nextIndex = p.nextIndex) :
    Tracks r0 m (s.setProgress m.fromId (ackedProgress p m)) := by
  obtain ⟨leads, same, p0, found, next⟩ := start
  have own : (s.setProgress m.fromId (ackedProgress p m)).cell m.fromId =
      some ((ackedProgress p m).matchIndex, (ackedProgress p m).nextIndex) := by
    simp [cell, setProgress, ProgressTracker.setProgress]
  have others : ∀ q, q ≠ m.fromId → (s.setProgress m.fromId (ackedProgress p m)).cell q = s.cell q := by
    intro q other
    simp [cell, setProgress, ProgressTracker.setProgress, other]
  refine ⟨fun _ => same.le, fun other _ => absurd ⟨leads, same.symm⟩ other, fun _ _ => ⟨?_, fun _ => .inr ?_⟩⟩
  · show s.state ≠ .candidate
    simp [role]
  have here : s.cell m.fromId = some (p.matchIndex, p.nextIndex) := by rw [cell, tracked]; rfl
  rcases (tracks.still leads same.symm).2 role with level | acked
  · refine ⟨kind, same ▸ bound, ⟨p0, found, ?_⟩, fun q other => (others q other).trans (level.cells q), level.last⟩
    have old : r0.cell m.fromId = some (p0.matchIndex, p0.nextIndex) := by rw [cell, found]; rfl
    rw [level.cells, old] at here
    simp only [Option.some.injEq, Prod.mk.injEq] at here
    rw [own]
    unfold ackedProgress
    split
    · simp [here]
    · rfl
  · -- a second response cannot come with the same call, unless it says the same
    obtain ⟨p1, found1, now⟩ := acked.sender
    obtain rfl : p1 = p0 := Option.some.inj (found1.symm.trans found)
    rw [now] at here
    simp only [Option.some.injEq, Prod.mk.injEq] at here
    refine ⟨kind, acked.bound, ⟨p1, found, ?_⟩, fun q other => (others q other).trans (acked.others q other), acked.last⟩
    rw [own]
    unfold ackedProgress at here ⊢
    split at here
    · have wrong : decr p1.nextIndex = p1.nextIndex := here.2.trans next.symm
      unfold decr at wrong
      split at wrong <;> omega
    · rename_i accepted
      rw [if_neg accepted, if_neg accepted]

theorem Tracks.act (tracks : Tracks r0 m s) (act : Act r0 m s s') : Tracks r0 m s' := by
  cases act with
  | soft same => exact tracks.even (even_soft same)
  | emit msg sent => exact tracks.even (even_enqueue s msg)
  | resend => exact tracks.even (even_enqueue s _)
  | follow later => exact tracks.raised (by simpa using later) (by simp)
  | yield start role =>
    subst start
    refine ⟨fun leads => ?_, by simp, fun leads => ?_⟩ <;> rcases role with role | role <;> simp [leads] at role
  | abdicate => exact tracks.aside (by simp) (by simp) (by simp)
  | preCampaign => exact tracks.aside rfl (by simp [becomePreCandidate]) (by simp [becomePreCandidate])
  | candidacy => exact tracks.raised (by simp [recordVote]) (by simp)
  | tally => exact tracks.even (even_of_eq rfl rfl rfl rfl)
  | lead role won taken appended =>
    have took := takeLead_spec taken
    have even := even_appendEntry appended
    have bounded : s'.Bounded := took.bounded.even even
    refine ⟨fun leads => ?_, fun _ _ => bounded, fun leads same => ?_⟩
    · rw [even.term, took.term]
      exact tracks.later leads
    · rw [even.term, took.term] at same
      exact absurd role (tracks.still leads same).1
  | propose data role appended => exact tracks.even (even_appendEntry appended)
  | grant => exact tracks.even (even_of_eq rfl rfl rfl rfl)
  | accept appended committed heard role =>
    exact tracks.aside (by simp) (by simp [role]) (by simp [role])
  | refuse heard role => exact tracks.aside (by simp) (by simp [role]) (by simp [role])
  | beat raftLog heard role => exact tracks.aside (by simp) (by simp [role]) (by simp [role])
  | restore snap storage heard role => exact tracks.aside rfl (by simp [role]) (by simp [role])
  | ack p role kind bound tracked start => exact tracks.ack kind bound tracked role start
  | commit raftLog role current committed =>
    exact tracks.even (even_of_eq rfl rfl rfl (commitTo_lastIndex committed))
  | drain => exact tracks.even (even_of_eq rfl rfl rfl rfl)
  | readSingle => exact tracks.even (even_of_eq rfl rfl rfl rfl)
  | queueRead => exact tracks.even (even_of_eq rfl rfl rfl rfl)
  | holdRead => exact tracks.even (even_of_eq rfl rfl rfl rfl)
  | ackRead => exact tracks.even (even_of_eq rfl rfl rfl rfl)
  | release => exact tracks.even (even_of_eq rfl rfl rfl rfl)
  | noteRead => exact tracks.even (even_of_eq rfl rfl rfl rfl)

theorem step_tracks {r r' : Raft} {e : Option StepError} (ok : r.step m = .ok (r', e)) : Tracks r m r' := by
  have acts := step_acts ok
  clear ok
  induction acts with
  | refl => exact Tracks.refl r m
  | tail _ last ih => exact ih.act last

/-! Responses in order. -/

/-- An append response that reaches a leader acknowledges what is known already or more of the
log, or it refuses a probe above what is known. -/
def Consistent (r : Raft) (m : Message) : Prop :=
  r.state = .leader → m.type = .msgAppResp → m.term ≤ r.term → ∀ p ∈ r.trk.progress m.fromId,
    if m.reject then p.matchIndex + 1 < p.nextIndex else p.matchIndex ≤ m.index ∧ m.index ≤ r.raftLog.lastIndex

instance (r : Raft) (m : Message) : Decidable (Consistent r m) :=
  inferInstanceAs (Decidable (r.state = .leader → m.type = .msgAppResp → m.term ≤ r.term →
    ∀ p ∈ r.trk.progress m.fromId,
      if m.reject then p.matchIndex + 1 < p.nextIndex else p.matchIndex ≤ m.index ∧ m.index ≤ r.raftLog.lastIndex))

/-- The indices stay in order, and while the node leads on no `MatchIndex` goes back. -/
structure Climbs (r r' : Raft) : Prop where
  bounded : r'.state = .leader → r'.Bounded
  grows : r.state = .leader → r'.state = .leader → r'.term = r.term →
    ∀ q x, r.cell q = some x → ∃ x', r'.cell q = some x' ∧ x.1 ≤ x'.1

theorem Level.climbs {r r' : Raft} (level : Level r r') (bounded : r.Bounded) : Climbs r r' := by
  refine ⟨fun _ q x here => ?_, fun _ _ _ q x here => ⟨x, (level.cells q).trans here, le_rfl⟩⟩
  rw [level.cells] at here
  have old := bounded q x here
  have last := level.last
  omega

theorem Acked.climbs {r r' : Raft} (acked : Acked r m r') (leads : r.state = .leader) (bounded : r.Bounded)
    (consistent : Consistent r m) : Climbs r r' := by
  obtain ⟨p, found, now⟩ := acked.sender
  have fine := consistent leads acked.kind acked.bound p found
  have old := bounded m.fromId (p.matchIndex, p.nextIndex) (by rw [cell, found]; rfl)
  have last := acked.last
  dsimp only at old
  have moved : (ackedProgress p m).matchIndex < (ackedProgress p m).nextIndex ∧
      (ackedProgress p m).nextIndex ≤ r'.raftLog.lastIndex + 1 ∧ p.matchIndex ≤ (ackedProgress p m).matchIndex := by
    unfold ackedProgress
    split at fine
    · rename_i rejected
      rw [if_pos rejected]
      dsimp only
      rw [decr_pos _ (by omega)]
      omega
    · rename_i accepted
      rw [if_neg accepted]
      dsimp only
      omega
  constructor
  · intro _ q x here
    by_cases own : q = m.fromId
    · rw [own, now] at here
      cases here
      exact ⟨moved.1, moved.2.1⟩
    · rw [acked.others q own] at here
      have before := bounded q x here
      omega
  · intro _ _ _ q x here
    by_cases own : q = m.fromId
    · subst own
      rw [cell, found] at here
      cases here
      exact ⟨_, now, moved.2.2⟩
    · exact ⟨x, (acked.others q own).trans here, le_rfl⟩

theorem step_climbs {r r' : Raft} {e : Option StepError} (ok : r.step m = .ok (r', e))
    (bounded : r.state = .leader → r.Bounded) (consistent : Consistent r m) : Climbs r r' := by
  have tracks := step_tracks ok
  by_cases still : r.state = .leader ∧ r'.term = r.term
  · obtain ⟨leads, same⟩ := still
    by_cases role : r'.state = .leader
    · rcases (tracks.still leads same).2 role with level | acked
      · exact level.climbs (bounded leads)
      · exact acked.climbs leads (bounded leads) consistent
    · exact ⟨fun wrong => absurd wrong role, fun _ wrong => absurd wrong role⟩
  · exact ⟨tracks.fresh still, fun leads _ same => absurd ⟨leads, same⟩ still⟩

def InStep (r : Raft) : Input → Prop
  | .step m => Consistent r m
  | _ => True

instance decidableInStep (r : Raft) : (i : Input) → Decidable (InStep r i)
  | .step m => inferInstanceAs (Decidable (Consistent r m))
  | .propose _ => inferInstanceAs (Decidable True)
  | .campaign => inferInstanceAs (Decidable True)
  | .readIndex _ => inferInstanceAs (Decidable True)
  | .tick => inferInstanceAs (Decidable True)
  | .accept => inferInstanceAs (Decidable True)
  | .advance _ => inferInstanceAs (Decidable True)
  | .store _ => inferInstanceAs (Decidable True)

/-- What the host promises a leader: `Advance` comes after the entries of the `Ready` are saved,
and a write to a storage that holds the whole log does not take entries from its end. -/
def Hosted (r : Raft) : Input → Prop
  | .advance rd => r.state = .leader → ∀ e ∈ rd.entries.getLast?,
      e.index + 1 < r.raftLog.unstable.offset + r.raftLog.unstable.entries.length ∨
        r.raftLog.lastIndex ≤ r.raftLog.storage.lastIndex
  | .store storage => r.state = .leader → r.raftLog.unstable.entries = [] →
      r.raftLog.storage.lastIndex ≤ storage.lastIndex
  | _ => True

instance decidableHosted (r : Raft) : (i : Input) → Decidable (Hosted r i)
  | .advance rd => inferInstanceAs (Decidable (r.state = .leader → ∀ e ∈ rd.entries.getLast?,
      e.index + 1 < r.raftLog.unstable.offset + r.raftLog.unstable.entries.length ∨
        r.raftLog.lastIndex ≤ r.raftLog.storage.lastIndex))
  | .store storage => inferInstanceAs (Decidable (r.state = .leader → r.raftLog.unstable.entries = [] →
      r.raftLog.storage.lastIndex ≤ storage.lastIndex))
  | .step _ => inferInstanceAs (Decidable True)
  | .propose _ => inferInstanceAs (Decidable True)
  | .campaign => inferInstanceAs (Decidable True)
  | .readIndex _ => inferInstanceAs (Decidable True)
  | .tick => inferInstanceAs (Decidable True)
  | .accept => inferInstanceAs (Decidable True)

theorem stableTo_lastIndex {l : RaftLog} {index term : Nat}
    (saved : index + 1 < l.unstable.offset + l.unstable.entries.length ∨ l.lastIndex ≤ l.storage.lastIndex) :
    l.lastIndex ≤ (l.stableTo index term).lastIndex := by
  unfold RaftLog.stableTo Unstable.stableTo
  split
  · exact le_rfl
  split
  · exact le_rfl
  rename_i e found
  split
  · exact le_rfl
  have bound := (List.getElem?_eq_some_iff.mp found).1
  simp only [RaftLog.lastIndex, Unstable.maybeLastIndex, List.getLast?_drop]
  rcases saved with short | stored
  · rw [if_neg (by omega)]
  · split
    · exact stored
    · exact le_rfl

theorem advance_lastIndex {r : Raft} {rd : Ready} (leads : r.state = .leader) (hosted : Hosted r (.advance rd)) :
    r.raftLog.lastIndex ≤ (r.advance rd).raftLog.lastIndex := by
  show _ ≤ (advanceLog r.raftLog rd).lastIndex
  unfold advanceLog
  dsimp only
  cases last : rd.entries.getLast? with
  | none => cases rd.committedEntries.getLast? <;> exact le_rfl
  | some e =>
    have stable : _ ≤ (r.raftLog.stableTo e.index e.term).lastIndex := stableTo_lastIndex (hosted leads e last)
    cases rd.committedEntries.getLast? <;> exact stable

theorem store_lastIndex {r : Raft} {storage : MemStorage} (leads : r.state = .leader)
    (hosted : Hosted r (.store storage)) :
    r.raftLog.lastIndex ≤ ({ r.raftLog with storage } : RaftLog).lastIndex := by
  unfold RaftLog.lastIndex Unstable.maybeLastIndex
  cases last : r.raftLog.unstable.entries.getLast? with
  | none => exact hosted leads (List.getLast?_eq_none_iff.mp last)
  | some e => exact le_rfl

theorem consistent_of_type {r : Raft} (other : m.type ≠ .msgAppResp) : Consistent r m :=
  fun _ kind => absurd kind other

theorem Even.climbs {r r' : Raft} (even : Even r r') (bounded : r.state = .leader → r.Bounded) : Climbs r r' :=
  ⟨fun leads => (bounded (even.state ▸ leads)).even even,
    fun _ _ _ q x here => ⟨x, (even.cells q).trans here, le_rfl⟩⟩

theorem Climbs.beat {r r1 r' : Raft} (climbs : Climbs r r1) (last : Climbs r1 r') (same : r'.ballot = r1.ballot) :
    Climbs r r' := by
  refine ⟨last.bounded, fun leads role term q x here => ?_⟩
  have state : r1.state = r'.state := (congrArg Ballot.state same).symm
  have now : r1.term = r'.term := (congrArg Ballot.term same).symm
  obtain ⟨x1, here1, grows1⟩ := climbs.grows leads (state.trans role) (now.trans term) q x here
  obtain ⟨x', here', grows'⟩ := last.grows (state.trans role) role now.symm q x1 here1
  exact ⟨x', here', grows1.trans grows'⟩

theorem Climbs.before {r r1 r' : Raft} (even : Even r r1) (climbs : Climbs r1 r') : Climbs r r' := by
  refine ⟨climbs.bounded, fun leads role term q x here => ?_⟩
  exact climbs.grows (even.state.trans leads) role (term.trans even.term.symm) q x ((even.cells q).trans here)

theorem Bounded.lead_even {r r1 : Raft} (bounded : r.state = .leader → r.Bounded) (even : Even r r1) :
    r1.state = .leader → r1.Bounded :=
  fun leads => (bounded (even.state ▸ leads)).even even

theorem timer_climbs {r r1 r' : Raft} (ok : r1.stepQuietly m = .ok r') (even : Even r r1)
    (other : m.type ≠ .msgAppResp) (bounded : r.state = .leader → r.Bounded) : Climbs r r' := by
  obtain ⟨e, stepped⟩ := stepQuietly_eq_ok ok
  exact (step_climbs stepped (Bounded.lead_even bounded even) (consistent_of_type other)).before even

theorem tickQuorum_climbs {r r' : Raft} (ok : r.tickQuorum = .ok r') (bounded : r.state = .leader → r.Bounded) :
    Climbs r r' := by
  unfold tickQuorum at ok
  split at ok
  · obtain ⟨r1, checked, ok⟩ := Outcome.bind_eq_ok.mp ok
    have climbs : Climbs r r1 := timer_climbs checked (even_of_eq rfl rfl rfl rfl) (by simp) bounded
    cases ok
    split
    · exact climbs.beat ((even_of_eq rfl rfl rfl rfl : Even r1 r1.abortLeaderTransfer).climbs climbs.bounded) rfl
    · exact climbs
  · cases ok
    exact (even_of_eq rfl rfl rfl rfl : Even r r).climbs bounded

theorem tick_climbs {r r' : Raft} (ok : r.tick = .ok r') (bounded : r.state = .leader → r.Bounded) : Climbs r r' := by
  unfold tick at ok
  split at ok
  · obtain ⟨r1, first, ok⟩ := Outcome.bind_eq_ok.mp ok
    have elapsed : Even r ({ r with
        heartbeatElapsed := r.heartbeatElapsed + 1, electionElapsed := r.electionElapsed + 1 } : Raft) :=
      even_of_eq rfl rfl rfl rfl
    have climbs : Climbs r r1 := (tickQuorum_climbs first (Bounded.lead_even bounded elapsed)).before elapsed
    split at ok
    · exact climbs.beat (timer_climbs ok (even_of_eq rfl rfl rfl rfl) (by simp) climbs.bounded)
        (beat_ballot (m := {}) ok).1
    · cases ok
      exact climbs
  · unfold tickElection at ok
    simp only at ok
    split at ok
    · exact timer_climbs ok (even_of_eq rfl rfl rfl rfl) (by simp) bounded
    · cases ok
      exact (even_of_eq rfl rfl rfl rfl : Even r { r with electionElapsed := r.electionElapsed + 1 }).climbs bounded

theorem next_climbs {r : Raft} {i : Input} (bounded : r.state = .leader → r.Bounded)
    (fine : Hosted r i ∧ InStep r i) : Climbs r (r.next i) := by
  obtain ⟨hosted, inStep⟩ := fine
  unfold next
  cases played : r.play i with
  | error p => exact (even_of_eq rfl rfl rfl rfl : Even r r).climbs bounded
  | ok r' =>
    dsimp only
    have request : ∀ m, m.type ≠ .msgAppResp → (do .ok (← r.step m).1 : Except Panic Raft) = .ok r' → Climbs r r' := by
      intro m other ok
      obtain ⟨⟨r1, e⟩, stepped, done⟩ := Outcome.bind_eq_ok.mp ok
      cases done
      exact step_climbs stepped bounded (consistent_of_type other)
    cases i with
    | step m =>
      simp only [play] at played
      split at played
      · cases played
        exact (even_of_eq rfl rfl rfl rfl : Even r r).climbs bounded
      · obtain ⟨e, stepped⟩ := stepQuietly_eq_ok played
        exact step_climbs stepped bounded inStep
    | propose data => exact request _ (by simp) played
    | campaign => exact request _ (by simp) played
    | readIndex ctx => exact request _ (by simp) played
    | tick => exact tick_climbs played bounded
    | accept =>
      cases played
      exact ⟨bounded, fun _ _ _ q x here => ⟨x, here, le_rfl⟩⟩
    | advance rd =>
      cases played
      exact ⟨fun leads => (bounded leads).even ⟨rfl, rfl, fun _ => rfl, advance_lastIndex leads hosted⟩,
        fun _ _ _ q x here => ⟨x, here, le_rfl⟩⟩
    | store storage =>
      cases played
      exact ⟨fun leads => (bounded leads).even ⟨rfl, rfl, fun _ => rfl, store_lastIndex leads hosted⟩,
        fun _ _ _ q x here => ⟨x, here, le_rfl⟩⟩

theorem run_bounded {r : Raft} (start : r.state ≠ .leader) {inputs : List Input}
    (fine : Runs.Along next (fun r i => Hosted r i ∧ InStep r i) r inputs) (k : Nat) :
    (r.moment inputs k).state = .leader → (r.moment inputs k).Bounded :=
  Runs.invariant_take next (fun s => s.state = .leader → s.Bounded)
    (fun _ _ bounded fine => (next_climbs bounded fine).bounded) (fun leads => absurd leads start) fine k

/-- In a run whose inputs are all in step, the progress of every peer of a leader is in order and
within the log, so that `NextIndex - 1` does not wrap; and while the node leads a term, no
`MatchIndex` goes back. -/
theorem progress_bounds (cfg : Config) (r : Raft) (started : newRaft cfg = .ok r) (inputs : List Input)
    (hosted : Runs.Along next Hosted r inputs) (inStep : Runs.Along next InStep r inputs) :
    (∀ k q p, (r.moment inputs k).state = .leader → (r.moment inputs k).trk.progress q = some p →
      p.matchIndex < p.nextIndex ∧ 1 ≤ p.nextIndex ∧
        p.nextIndex ≤ (r.moment inputs k).raftLog.lastIndex + 1 ∧
        p.matchIndex ≤ (r.moment inputs k).raftLog.lastIndex ∧ decr p.nextIndex = p.nextIndex - 1) ∧
    ∀ i j term, i ≤ j →
      (∀ k, i ≤ k → k ≤ j → (r.moment inputs k).state = .leader ∧ (r.moment inputs k).term = term) →
      ∀ q p, (r.moment inputs i).trk.progress q = some p →
        ∃ p', (r.moment inputs j).trk.progress q = some p' ∧ p.matchIndex ≤ p'.matchIndex := by
  have start : r.state ≠ .leader := by simp [(newRaft_fresh started).state]
  have fine := Runs.along_both next hosted inStep
  refine ⟨fun k q p leads tracked => ?_, fun i j term order leads q p tracked => ?_⟩
  · have bounds := run_bounded start fine k leads q (p.matchIndex, p.nextIndex) (by rw [cell, tracked]; rfl)
    dsimp only at bounds
    exact ⟨bounds.1, by omega, bounds.2, by omega, decr_pos _ (by omega)⟩
  · induction j, order using Nat.le_induction with
    | base => exact ⟨p, tracked, le_rfl⟩
    | succ j order ih =>
      obtain ⟨p1, tracked1, grows1⟩ := ih (fun k low high => leads k low (by omega))
      cases here : inputs[j]? with
      | none =>
        rw [moment_end here]
        exact ⟨p1, tracked1, grows1⟩
      | some input =>
        have now := leads j order (by omega)
        have after := leads (j + 1) (by omega) le_rfl
        rw [moment_succ here] at after ⊢
        have climbs : Climbs (r.moment inputs j) _ := next_climbs (run_bounded start fine j) (Runs.along_at _ fine here)
        obtain ⟨x', cell', grows'⟩ := climbs.grows now.1 after.1 (after.2.trans now.2.symm) q
          (p1.matchIndex, p1.nextIndex) (by rw [cell, tracked1]; rfl)
        obtain ⟨p', tracked', rfl⟩ := Option.map_eq_some_iff.mp cell'
        exact ⟨p', tracked', grows1.trans grows'⟩

def replicating (acks : List Nat) : List Input :=
  [.campaign, .step { type := .msgPreVoteResp, fromId := 2, toId := 1, term := 1 },
    .step { type := .msgVoteResp, fromId := 2, toId := 1, term := 1 }, .propose [7]] ++
    acks.map (fun index => .step { type := .msgAppResp, fromId := 2, toId := 1, term := 1, index })

theorem acksInOrder_bounded : ∃ r, newRaft (Cluster.nodeConfig threeNodes 1 {} (fun _ => 0)) = .ok r ∧
    (r.moment (replicating [1, 2]) 6).state = .leader ∧ ∃ p, (r.moment (replicating [1, 2]) 6).trk.progress 2 = some p ∧
      p.matchIndex < p.nextIndex ∧ p.nextIndex ≤ (r.moment (replicating [1, 2]) 6).raftLog.lastIndex + 1 := by
  obtain ⟨r, started, hosted, inStep, leads, p, tracked⟩ : ∃ r,
      newRaft (Cluster.nodeConfig threeNodes 1 {} (fun _ => 0)) = .ok r ∧
      Runs.Along next Hosted r (replicating [1, 2]) ∧ Runs.Along next InStep r (replicating [1, 2]) ∧ (r.moment (replicating [1, 2]) 6).state = .leader ∧
      ∃ p, (r.moment (replicating [1, 2]) 6).trk.progress 2 = some p :=
    ⟨_, rfl, by decide +kernel, by decide +kernel, by decide +kernel, ⟨2, 3, true⟩, by decide +kernel⟩
  have bounds := (progress_bounds _ r started _ hosted inStep).1 6 2 p leads tracked
  exact ⟨r, started, leads, p, tracked, bounds.1, bounds.2.2.1⟩

def refused : List Input :=
  [.campaign, .step { type := .msgPreVoteResp, fromId := 2, toId := 1, term := 2 },
    .step { type := .msgVoteResp, fromId := 2, toId := 1, term := 2 }] ++
    List.replicate 3 (.step { type := .msgAppResp, fromId := 2, toId := 1, term := 2, index := 1, reject := true })

/-- An ack that arrives late takes `MatchIndex` back, and a refusal that arrives again takes
`NextIndex` through zero. -/
theorem lateResponses_taken :
    (∃ r, newRaft (Cluster.nodeConfig threeNodes 1 {} (fun _ => 0)) = .ok r ∧
      (∀ k ∈ [5, 6], (r.moment (replicating [2, 1]) k).state = .leader ∧ (r.moment (replicating [2, 1]) k).term = 1) ∧
      (r.moment (replicating [2, 1]) 5).cell 2 = some (2, 3) ∧
      (r.moment (replicating [2, 1]) 6).cell 2 = some (1, 2)) ∧
    ∃ r, newRaft (Cluster.nodeConfig threeNodes 1 { entries := [⟨1, 1, []⟩], hd := { term := 1 } } (fun _ => 0)) = .ok r ∧
      (r.moment refused 6).state = .leader ∧ (r.moment refused 6).cell 2 = some (0, 2 ^ 64 - 1) :=
  ⟨⟨_, rfl, by decide +kernel, by decide +kernel, by decide +kernel⟩, _, rfl, by decide +kernel, by decide +kernel⟩

end Raft

end Kvgo

import Kvgo.Raft.ReadRequests

/-! The requests of a leadership and the answers to them, over whole runs. A record beside the
node notes each request that is stepped, who has acknowledged a heartbeat for it since, and each
answer that the node gives. -/

namespace Kvgo

namespace Raft

def roster (r : Raft) : List Nat × MajorityConfig := (r.trk.ids, r.trk.voters)

variable {r0 r r' s s' : Raft} {m : Message}

theorem Act.roster (act : Act r0 m s s') : s'.roster = s.roster := by
  unfold Raft.roster
  cases act with
  | soft same => rw [same.ids, same.voters]
  | lead role won taken appended =>
    obtain ⟨_, _, trk⟩ := appendEntry_rest appended
    have took := takeLead_spec taken
    rw [trk, took.ids, took.voters]
  | propose data role appended =>
    obtain ⟨_, _, trk⟩ := appendEntry_rest appended
    rw [trk]
  | candidacy => simp [recordVote, ProgressTracker.recordVote, becomeCandidate]
  | _ => first | rfl | simp

theorem Works.roster {calls : List (Raft × Message)} (works : Works calls r r') : r'.roster = r.roster := by
  refine works.keeps (P := fun s => s.roster = r.roster) (fun s s' kept same => ?_) (fun _ _ s s' _ _ kept act => ?_) rfl
  · unfold Raft.roster at kept ⊢
    rw [same.ids, same.voters]
    exact kept
  · exact act.roster.trans kept

theorem stepQuietly_roster (ok : r.stepQuietly m = .ok r') : r'.roster = r.roster := by
  obtain ⟨e, stepped⟩ := stepQuietly_eq_ok ok
  exact (Works.call (List.mem_singleton_self (r, m)) stepped).roster

theorem play_roster {i : Input} (ok : r.play i = .ok r') : r'.roster = r.roster := by
  cases i with
  | step m =>
    simp only [play] at ok
    split at ok
    · cases ok
      rfl
    · exact stepQuietly_roster ok
  | propose data => exact stepQuietly_roster ok
  | campaign => exact stepQuietly_roster ok
  | readIndex ctx => exact stepQuietly_roster ok
  | tick =>
    have works : Works [] r r' := tick_works ok
    exact works.roster
  | accept =>
    cases ok
    rfl
  | advance rd =>
    cases ok
    rfl
  | store storage =>
    cases ok
    rfl

structure Enrolled (r : Raft) : Prop where
  same : r.trk.voters.ids.length = r.trk.ids.length
  some : 0 < r.trk.ids.length

theorem Fresh.enrolled {cfg : Config} (fresh : Fresh cfg r) : r.Enrolled := by
  constructor
  · rw [fresh.voters]
    refine List.Perm.length_eq
      ((List.perm_ext_iff_of_nodup (buildMajorityConfig cfg.id cfg.peers).nodup r.trk.nodup).mpr ?_)
    intro id
    rw [fresh.ids]
    simp [buildMajorityConfig, or_comm]
  · exact List.length_pos_of_mem ((fresh.ids cfg.id).mpr (.inr rfl))

theorem Enrolled.roster (enrolled : r.Enrolled) (same : r'.roster = r.roster) : r'.Enrolled := by
  have ids : r'.trk.ids = r.trk.ids := congrArg Prod.fst same
  have voters : r'.trk.voters = r.trk.voters := congrArg Prod.snd same
  exact ⟨by rw [ids, voters, enrolled.same], by rw [ids]; exact enrolled.some⟩

theorem due_congr (id : r'.id = r.id) : r'.due = r.due := by
  funext m
  simp [due, issuer, id]

end Raft

theorem self_not_won {voters : MajorityConfig} {id : Nat} (many : 2 ≤ voters.ids.length) :
    voters.voteResult (Function.update (fun _ => none) id (some true)) ≠ .voteWon := by
  intro won
  have most := MajorityConfig.voteResult_won (by unfold MajorityConfig.size; omega) won
  have count := Majority.iff_countP.mp most
  have one : voters.ids.countP (fun v => decide (Function.update (fun _ => none) id (some true) v = some true)) ≤ 1 := by
    calc _ ≤ voters.ids.countP (fun v => v == id) := by
          refine List.countP_mono_left (fun v _ yes => ?_)
          by_contra other
          simp only [beq_iff_eq] at other
          simp [Function.update_of_ne other] at yes
      _ = voters.ids.count id := rfl
      _ ≤ 1 := List.nodup_iff_count_le_one.mp voters.nodup id
  omega

structure Desk where
  r : Raft
  /-- The requests stepped with a commit of the term, or by a node that is alone. -/
  asked : List Inquiry := []
  /-- The requests stepped before the first commit of the term. -/
  early : List Message := []
  answers : List (Nat × Bytes) := []

namespace Desk

open Raft

def current (r : Raft) : Bool :=
  match r.committedEntryInCurrentTerm with
  | .ok now => now
  | .error _ => false

def record (d : Desk) (m : Message) : Desk :=
  match m.type with
  | .msgReadIndex =>
    if d.r.trk.isSingleton || current d.r then
      { d with asked := d.asked ++ [⟨m, Function.update (fun _ => none) d.r.id (some true)⟩] }
    else { d with early := d.early ++ [m] }
  | .msgHeartbeatResp =>
    if (d.r.trk.progress m.fromId).isSome then
      { d with asked := d.asked.map (Inquiry.hear m.fromId m.context) }
    else d
  | _ => d

def next (d : Desk) (i : Input) : Desk :=
  match d.r.play i with
  | .error _ => d
  | .ok r' =>
    if d.r.state = .leader ∧ r'.state = .leader ∧ r'.term = d.r.term then
      { (d.r.message i).elim d d.record with r := r', answers := d.answers ++ d.r.office.answered r'.office }
    else { r := r' }

def Separate (d : Desk) (i : Input) : Prop :=
  d.r.state = .leader → ∀ m ∈ d.r.message i, m.type = .msgReadIndex → d.r.trk.isSingleton = false →
    current d.r = true → m.context ≠ [] ∧ (d.r.readOnly.pendingReadIndex m.context).isNone = true

instance (d : Desk) (i : Input) : Decidable (Separate d i) :=
  inferInstanceAs (Decidable (d.r.state = .leader → ∀ m ∈ d.r.message i, m.type = .msgReadIndex →
    d.r.trk.isSingleton = false → current d.r = true →
      m.context ≠ [] ∧ (d.r.readOnly.pendingReadIndex m.context).isNone = true))

/-- The requests of the record that have been answered, those that wait, and the early ones
that have been answered. -/
structure Kept (d : Desk) (done waiting : List Inquiry) (served : List Message) : Prop where
  asked : d.asked = done ++ waiting
  early : d.early = served ++ d.r.pendingReadIndexRequests
  answers : d.answers.Perm ((done.map Inquiry.req ++ served).map d.r.due)
  holds : d.r.readOnly.Holds waiting
  few : ∀ a ∈ waiting, d.r.trk.voters.voteResult a.acks ≠ .voteWon
  named : ∀ a ∈ waiting, a.context ≠ []
  alone : d.r.trk.isSingleton = true → waiting = []

/-! What each kind of message does to the record. -/

section Record

variable {d : Desk} {m : Message}

theorem record_plain (other : m.type ≠ .msgReadIndex)
    (deaf : ¬ (m.type = .msgHeartbeatResp ∧ (d.r.trk.progress m.fromId).isSome = true)) : d.record m = d := by
  unfold record
  split
  · exact absurd ‹_› other
  · rw [if_neg (fun known => deaf ⟨‹_›, known⟩)]
  · rfl

theorem record_asked (kind : m.type = .msgReadIndex) (ready : (d.r.trk.isSingleton || current d.r) = true) :
    d.record m = { d with asked := d.asked ++ [⟨m, Function.update (fun _ => none) d.r.id (some true)⟩] } := by
  simp only [record, kind, if_pos ready]

theorem record_early (kind : m.type = .msgReadIndex) (early : (d.r.trk.isSingleton || current d.r) = false) :
    d.record m = { d with early := d.early ++ [m] } := by
  simp [record, kind, early]

theorem record_heard (kind : m.type = .msgHeartbeatResp) (known : (d.r.trk.progress m.fromId).isSome = true) :
    d.record m = { d with asked := d.asked.map (Inquiry.hear m.fromId m.context) } := by
  simp only [record, kind, if_pos known]

end Record

section Keep

variable {d seen : Desk} {done waiting done' waiting' : List Inquiry} {served served' reqs : List Message}
  {r' : Raft} {m : Message}

/-- The record behind a step: what is asked for beyond the queue itself follows from the node
being the same. -/
theorem Kept.renew (kept : Kept d done waiting served) (id : r'.id = d.r.id) (roster : r'.roster = d.r.roster)
    (replies : Replies d.r reqs r') (asked : seen.asked = done' ++ waiting')
    (early : seen.early = served' ++ r'.pendingReadIndexRequests)
    (order : (done'.map Inquiry.req ++ served').Perm ((done.map Inquiry.req ++ served) ++ reqs))
    (holds : r'.readOnly.Holds waiting') (few : ∀ a ∈ waiting', d.r.trk.voters.voteResult a.acks ≠ .voteWon)
    (named : ∀ a ∈ waiting', a.context ≠ []) (alone : d.r.trk.isSingleton = true → waiting' = []) :
    Kept { seen with r := r', answers := d.answers ++ d.r.office.answered r'.office } done' waiting' served' := by
  have voters : r'.trk.voters = d.r.trk.voters := congrArg Prod.snd roster
  have ids : r'.trk.ids = d.r.trk.ids := congrArg Prod.fst roster
  refine ⟨asked, early, ?_, holds, ?_, named, ?_⟩
  · show (d.answers ++ d.r.office.answered r'.office).Perm (List.map r'.due _)
    rw [due_congr id]
    have both := kept.answers.append replies
    rw [← List.map_append] at both
    exact both.trans (order.map d.r.due).symm
  · show ∀ a ∈ waiting', r'.trk.voters.voteResult a.acks ≠ .voteWon
    rw [voters]
    exact few
  · show r'.trk.isSingleton = true → _
    unfold ProgressTracker.isSingleton at alone ⊢
    rw [ids]
    exact alone

/-- An input that brings nothing for the readers. -/
theorem Kept.passes {i : Input} (kept : Kept d done waiting served) (id : r'.id = d.r.id)
    (roster : r'.roster = d.r.roster) (passes : Passes d.r i r') :
    Kept { (d.r.message i).elim d d.record with r := r', answers := d.answers ++ d.r.office.answered r'.office }
      done waiting served := by
  have plain : (d.r.message i).elim d d.record = d := by
    cases here : d.r.message i with
    | none => rfl
    | some m =>
      obtain ⟨request, ack⟩ := passes.plain m here
      exact record_plain request (fun heard => ack heard.1)
  have silent : Replies d.r [] r' := by
    unfold Replies
    rw [passes.answered]
    rfl
  rw [plain]
  exact kept.renew id roster silent kept.asked (by rw [passes.parked]; exact kept.early) (by simp)
    (by rw [passes.readOnly]; exact kept.holds) kept.few kept.named kept.alone

theorem Kept.few_queue (kept : Kept d done waiting served) (enrolled : d.r.Enrolled)
    (many : d.r.trk.isSingleton = false) :
    ∀ a ∈ waiting ++ [⟨m, Function.update (fun _ => none) d.r.id (some true)⟩],
      d.r.trk.voters.voteResult a.acks ≠ .voteWon := by
  intro a inside
  rcases List.mem_append.mp inside with old | last
  · exact kept.few a old
  · obtain rfl := List.mem_singleton.mp last
    have several : d.r.trk.ids.length ≠ 1 := by simpa [ProgressTracker.isSingleton] using many
    have same := enrolled.same
    have some := enrolled.some
    exact self_not_won (by omega)

theorem Kept.holds_queue (kept : Kept d done waiting served)
    (free : d.r.readOnly.pendingReadIndex m.context = none) :
    ((d.r.readOnly.addRequest d.r.raftLog.committed m).recvAck d.r.id m.context).1.Holds
      (waiting ++ [⟨m, Function.update (fun _ => none) d.r.id (some true)⟩]) := by
  have holds := (kept.holds.addRequest (i := d.r.raftLog.committed) free).recvAck d.r.id m.context
  have new : [(⟨m, fun _ => none⟩ : Inquiry)].map (Inquiry.hear d.r.id m.context) =
      [⟨m, Function.update (fun _ => none) d.r.id (some true)⟩] := by simp [Inquiry.hear, Inquiry.context]
  rw [List.map_append, Inquiry.map_hear_of_not_mem (kept.holds.fresh free), new] at holds
  exact holds

theorem Kept.few_hear (kept : Kept d done waiting served)
    (few : d.r.trk.voters.voteResult (d.r.readOnly.recvAck m.fromId m.context).2 ≠ .voteWon) :
    ∀ b ∈ waiting.map (Inquiry.hear m.fromId m.context), d.r.trk.voters.voteResult b.acks ≠ .voteWon := by
  intro b inside
  obtain ⟨a, old, rfl⟩ := List.mem_map.mp inside
  by_cases same : a.context = m.context
  · rw [← same, ← kept.holds.recvAck_acks old, same]
    exact few
  · rw [Inquiry.hear_of_ne same]
    exact kept.few a old

theorem rest_waited {id : Nat} {ctx : Bytes} {out rest : List Inquiry}
    (split : waiting.map (Inquiry.hear id ctx) = out ++ rest) (gone : ctx ∉ rest.map Inquiry.context) :
    ∀ a ∈ rest, a ∈ waiting := by
  intro a inside
  have back : a ∈ waiting.map (Inquiry.hear id ctx) := by simp [split, inside]
  obtain ⟨b, here, rfl⟩ := List.mem_map.mp back
  have other : b.context ≠ ctx := by
    intro same
    exact gone (List.mem_map.mpr ⟨_, inside, by rw [Inquiry.hear_context, same]⟩)
  rwa [Inquiry.hear_of_ne other]

/-- What one served message makes of the record. -/
theorem Kept.attend (kept : Kept d done waiting served) (enrolled : d.r.Enrolled) (id : r'.id = d.r.id)
    (roster : r'.roster = d.r.roster) (act : Served d.r m r')
    (separate : m.type = .msgReadIndex → d.r.trk.isSingleton = false → current d.r = true →
      m.context ≠ [] ∧ (d.r.readOnly.pendingReadIndex m.context).isNone = true) :
    ∃ done' waiting' served',
      Kept { d.record m with r := r', answers := d.answers ++ d.r.office.answered r'.office }
        done' waiting' served' := by
  obtain ⟨reqs, serves, replies⟩ := act
  generalize readOnly : r'.readOnly = ro at serves
  generalize parked : r'.pendingReadIndexRequests = pending at serves
  cases serves with
  | idle other deaf =>
    by_cases heard : m.type = .msgHeartbeatResp ∧ (d.r.trk.progress m.fromId).isSome = true
    · -- only an ack without a context is heard and not counted, and no request waits for it
      have empty : m.context = [] := by
        rcases deaf heard.1 with unknown | empty
        · simp [unknown] at heard
        · exact empty
      have same : waiting.map (Inquiry.hear m.fromId m.context) = waiting := by
        refine Inquiry.map_hear_of_not_mem (fun inside => ?_)
        obtain ⟨a, here, context⟩ := List.mem_map.mp inside
        exact kept.named a here (context.trans empty)
      rw [record_heard heard.1 heard.2]
      exact ⟨done.map (Inquiry.hear m.fromId m.context), waiting, served, kept.renew id roster replies
        (by simp [kept.asked, same]) (by rw [parked]; exact kept.early) (by simp [Function.comp_def])
        (readOnly ▸ kept.holds) kept.few kept.named kept.alone⟩
    · rw [record_plain other heard]
      exact ⟨done, waiting, served, kept.renew id roster replies kept.asked (by rw [parked]; exact kept.early)
        (by simp) (readOnly ▸ kept.holds) kept.few kept.named kept.alone⟩
  | single kind alone =>
    obtain rfl := kept.alone alone
    rw [record_asked kind (by simp [alone])]
    refine ⟨done ++ [⟨m, Function.update (fun _ => none) d.r.id (some true)⟩], [], served, kept.renew id roster replies
      (by simp [kept.asked]) (by rw [parked]; exact kept.early) ?_ (readOnly ▸ kept.holds) (by simp) (by simp)
      (fun _ => rfl)⟩
    simp only [List.map_append, List.map_cons, List.map_nil, List.append_assoc]
    exact List.Perm.append_left _ List.perm_append_comm
  | queue kind many now =>
    have ready : current d.r = true := by simp [current, now]
    obtain ⟨context, free⟩ := separate kind many ready
    rw [record_asked kind (by simp [ready])]
    refine ⟨done, _, served, kept.renew id roster replies (by simp [kept.asked]) (by rw [parked]; exact kept.early)
      (by simp) (readOnly ▸ kept.holds_queue (by simpa using free)) (kept.few_queue enrolled many) ?_ (by simp [many])⟩
    intro a inside
    rcases List.mem_append.mp inside with old | last
    · exact kept.named a old
    · obtain rfl := List.mem_singleton.mp last
      exact context
  | park kind many notYet =>
    rw [record_early kind (by simp [many, current, notYet])]
    exact ⟨done, waiting, served, kept.renew id roster replies kept.asked (by simp [kept.early, parked]) (by simp)
      (readOnly ▸ kept.holds) kept.few kept.named kept.alone⟩
  | drain kind =>
    rw [record_plain (by simp [kind]) (by simp [kind])]
    exact ⟨done, waiting, served ++ d.r.pendingReadIndexRequests, kept.renew id roster replies kept.asked
      (by simp [kept.early, parked]) (by simp) (readOnly ▸ kept.holds) kept.few kept.named kept.alone⟩
  | ack kind known few =>
    rw [record_heard kind known]
    refine ⟨done.map (Inquiry.hear m.fromId m.context), waiting.map (Inquiry.hear m.fromId m.context), served,
      kept.renew id roster replies (by simp [kept.asked]) (by rw [parked]; exact kept.early)
      (by simp [Function.comp_def]) (readOnly ▸ kept.holds.recvAck m.fromId m.context) (kept.few_hear few) ?_ ?_⟩
    · intro b inside
      obtain ⟨a, old, rfl⟩ := List.mem_map.mp inside
      rw [Inquiry.hear_context]
      exact kept.named a old
    · intro alone
      rw [kept.alone alone]
      rfl
  | release kind known after rss advanced =>
    obtain ⟨out, rest, split, answered, left, gone⟩ := (kept.holds.recvAck m.fromId m.context).advance advanced
    have old := rest_waited split gone
    rw [record_heard kind known]
    refine ⟨done.map (Inquiry.hear m.fromId m.context) ++ out, rest, served, kept.renew id roster replies
      (by simp [kept.asked, split]) (by rw [parked]; exact kept.early) ?_ (readOnly ▸ left)
      (fun a inside => kept.few a (old a inside)) (fun a inside => kept.named a (old a inside)) ?_⟩
    · rw [List.map_append, List.map_map, answered]
      simp only [Function.comp_def, Inquiry.hear_req, List.append_assoc]
      exact List.Perm.append_left _ List.perm_append_comm
    · intro alone
      rw [kept.alone alone, List.map_nil, eq_comm, List.append_eq_nil_iff] at split
      exact split.2

end Keep

def Sound (d : Desk) : Prop :=
  d.r.Enrolled ∧ (d.r.state = .leader → ∃ done waiting served, Kept d done waiting served)

theorem next_sound {d : Desk} {i : Input} (sound : Sound d) (separate : Separate d i) : Sound (d.next i) := by
  unfold next
  cases played : d.r.play i with
  | error p => exact sound
  | ok r' =>
    have roster := play_roster played
    have enrolled := sound.1.roster roster
    have id := play_id played
    dsimp only
    by_cases leads : r'.state = .leader
    · rcases play_served played leads with ⟨role, term, act⟩ | ⟨new, clear⟩
      · rw [if_pos ⟨role, leads, term⟩]
        refine ⟨enrolled, fun _ => ?_⟩
        obtain ⟨done, waiting, served, kept⟩ := sound.2 role
        rcases act with ⟨m, here, act⟩ | passes
        · rw [here]
          exact kept.attend sound.1 id roster act (separate role m here)
        · exact ⟨done, waiting, served, kept.passes id roster passes⟩
      · rw [if_neg (fun both => new ⟨both.1, both.2.2⟩)]
        refine ⟨enrolled, fun _ => ⟨[], [], [], rfl, ?_, .refl _, ?_, by simp, by simp, fun _ => rfl⟩⟩
        · exact clear.2.symm
        · show r'.readOnly.Holds []
          rw [clear.1]
          exact ReadOnly.holds_new
    · rw [if_neg (fun both => leads both.2.1)]
      exact ⟨enrolled, fun wrong => absurd wrong leads⟩

/-- In a run in which no two requests wait under one context, at every moment of a leadership:
the requests that were stepped are those that have been answered, each once and to the node
that asked, followed by those that wait; and a request is among the answered ones once a
majority has acknowledged a heartbeat for it or for a later one. -/
theorem each_request_answered (cfg : Config) (r : Raft) (started : newRaft cfg = .ok r) (inputs : List Input)
    (separate : Runs.Along next Separate { r } inputs) (k : Nat)
    (leads : (Runs.exec next { r } (inputs.take k)).r.state = .leader) :
    ∃ done waiting served,
      (Runs.exec next { r } (inputs.take k)).asked = done ++ waiting ∧
      (Runs.exec next { r } (inputs.take k)).early =
        served ++ (Runs.exec next { r } (inputs.take k)).r.pendingReadIndexRequests ∧
      (Runs.exec next { r } (inputs.take k)).answers.Perm
        ((done.map Inquiry.req ++ served).map (Runs.exec next { r } (inputs.take k)).r.due) ∧
      ∀ p q a, p ≤ q → (Runs.exec next { r } (inputs.take k)).asked[q]? = some a →
        Majority (Runs.exec next { r } (inputs.take k)).r.trk.voters.ids (fun v => a.acks v = some true) →
        p < done.length := by
  have fresh := newRaft_fresh started
  have sound : Sound (Runs.exec next { r } (inputs.take k)) :=
    Runs.invariant_take next Sound (fun _ _ sound separate => next_sound sound separate)
      ⟨fresh.enrolled, fun wrong => by simp [fresh.state] at wrong⟩ separate k
  generalize Runs.exec next { r } (inputs.take k) = d at sound leads
  obtain ⟨done, waiting, served, kept⟩ := sound.2 leads
  refine ⟨done, waiting, served, kept.asked, kept.early, kept.answers, fun p q a order here most => ?_⟩
  by_contra late
  rw [kept.asked, List.getElem?_append_right (by omega)] at here
  exact kept.few a (List.mem_of_getElem? here) (MajorityConfig.voteResult_of_majority most)

/-- Node 1 of three is elected and has its first entry committed; nodes 2 and 3 ask for a read
with these contexts, and both answer the heartbeats for the second one. -/
def twoReaders (first second : Bytes) : List Input :=
  [.campaign, .step { type := .msgPreVoteResp, fromId := 2, toId := 1, term := 1 },
    .step { type := .msgVoteResp, fromId := 2, toId := 1, term := 1 },
    .step { type := .msgAppResp, fromId := 1, toId := 1, term := 1, index := 1 },
    .step { type := .msgAppResp, fromId := 2, toId := 1, term := 1, index := 1 },
    .step { type := .msgReadIndex, fromId := 2, toId := 1, term := 1, context := first },
    .step { type := .msgReadIndex, fromId := 3, toId := 1, term := 1, context := second },
    .step { type := .msgHeartbeatResp, fromId := 2, toId := 1, term := 1, context := second },
    .step { type := .msgHeartbeatResp, fromId := 3, toId := 1, term := 1, context := second }]

theorem twoContexts_answered : ∃ r, newRaft (Cluster.nodeConfig threeNodes 1 {} (fun _ => 0)) = .ok r ∧
    (Runs.exec next { r } (twoReaders [1] [2])).answers = [(2, [1]), (3, [2])] ∧
    ∃ done waiting served, (Runs.exec next { r } ((twoReaders [1] [2]).take 9)).asked = done ++ waiting ∧
      (Runs.exec next { r } ((twoReaders [1] [2]).take 9)).answers.Perm
        ((done.map Inquiry.req ++ served).map (Runs.exec next { r } ((twoReaders [1] [2]).take 9)).r.due) := by
  obtain ⟨r, started, separate, leads, said⟩ : ∃ r,
      newRaft (Cluster.nodeConfig threeNodes 1 {} (fun _ => 0)) = .ok r ∧
      Runs.Along next Separate { r } (twoReaders [1] [2]) ∧
      (Runs.exec next { r } ((twoReaders [1] [2]).take 9)).r.state = .leader ∧
      (Runs.exec next { r } (twoReaders [1] [2])).answers = [(2, [1]), (3, [2])] :=
    ⟨_, rfl, by decide +kernel, by decide +kernel, by decide +kernel⟩
  obtain ⟨done, waiting, served, asked, _, answers, _⟩ := each_request_answered _ r started _ separate 9 leads
  exact ⟨r, started, said, done, waiting, served, asked, answers⟩

/-- Under one context the second request is dropped: every node has acknowledged its heartbeat
and it is neither answered nor queued. -/
theorem sharedContext_dropped : ∃ r, newRaft (Cluster.nodeConfig threeNodes 1 {} (fun _ => 0)) = .ok r ∧
    (Runs.exec next { r } (twoReaders [0, 0, 0, 0, 0, 0, 0, 1] [0, 0, 0, 0, 0, 0, 0, 1])).r.state = .leader ∧
    (Runs.exec next { r } (twoReaders [0, 0, 0, 0, 0, 0, 0, 1] [0, 0, 0, 0, 0, 0, 0, 1])).asked.map
      (fun a => (a.req.fromId, [1, 2, 3].map a.acks)) =
        [(2, [some true, some true, some true]), (3, [some true, some true, some true])] ∧
    (Runs.exec next { r } (twoReaders [0, 0, 0, 0, 0, 0, 0, 1] [0, 0, 0, 0, 0, 0, 0, 1])).answers =
      [(2, [0, 0, 0, 0, 0, 0, 0, 1])] ∧
    (Runs.exec next { r } (twoReaders [0, 0, 0, 0, 0, 0, 0, 1] [0, 0, 0, 0, 0, 0, 0, 1])).r.readOnly.readIndexQueue =
      [] :=
  ⟨_, rfl, by decide +kernel, by decide +kernel, by decide +kernel, by decide +kernel⟩

end Desk

end Kvgo

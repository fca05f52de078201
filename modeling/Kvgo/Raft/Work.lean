import Kvgo.Raft.Acts
import Kvgo.Raft.Cluster

/-! The `Step` calls behind each arm of the node loop, and what a node's state
machine can do during one arm. -/

namespace Kvgo

namespace Node

/-- The calls of `Step` made for the messages of a list, one after the other. -/
def callsFrom (r : Raft) : List Message → List (Raft × Message)
  | [] => []
  | m :: ms =>
    (r, m) :: match r.stepQuietly m with
      | .error _ => []
      | .ok r' => callsFrom r' ms

/-- The calls of `Step` an arm makes, with the state each call finds. A tick only
steps the messages of `isTimer` and is not listed. -/
def stepCalls (n : Node) : Event → List (Raft × Message)
  | .step m => if isLocalMsg m.type then [] else [(n.r, m)]
  | .propose data => [(n.r, { type := .msgProp, entries := [⟨0, 0, data⟩] })]
  | .campaign => [(n.r, { type := .msgHup })]
  | .readIndex ctx => [(n.r, { type := .msgReadIndex, context := ctx })]
  | .tick => []
  | .accept => []
  | .advance => if n.advancec then callsFrom (n.r.advance n.rd) n.stepsOnAdvance else []

end Node

namespace Raft

def isTimer (m : Message) : Prop :=
  m.term = 0 ∧ (m.type = .msgHup ∨ m.type = .msgCheckQuorum ∨ m.type = .msgBeat)

abbrev Works (calls : List (Raft × Message)) : Raft → Raft → Prop :=
  Relation.ReflTransGen (fun r r' =>
    Soft r r' ∨ ∃ m e, ((r, m) ∈ calls ∨ isTimer m) ∧ r.step m = .ok (r', e))

/-- An invariant of the work on a node needs to be kept by timer updates and by the
acts of each call. -/
theorem Works.keeps {calls : List (Raft × Message)} {P : Raft → Prop}
    (soft : ∀ r r', P r → Soft r r' → P r')
    (act : ∀ r0 m r r', ((r0, m) ∈ calls ∨ isTimer m) → P r0 → P r → Act r0 m r r' → P r')
    {r r' : Raft} (works : Works calls r r') (start : P r) : P r' := by
  induction works with
  | refl => exact start
  | tail _ last ih =>
    rename_i r1 r2 _
    rcases last with same | ⟨m, e, call, ok⟩
    · exact soft _ _ ih same
    · have acts := step_acts ok
      clear ok
      induction acts with
      | refl => exact ih
      | tail _ last kept => exact act r1 m _ _ call ih kept last

theorem Works.mono {calls calls' : List (Raft × Message)} (sub : calls ⊆ calls') {r r' : Raft}
    (works : Works calls r r') : Works calls' r r' := by
  refine Relation.ReflTransGen.mono (fun s s' one => ?_) _ _ works
  exact one.imp_right (fun ⟨m, e, call, ok⟩ => ⟨m, e, call.imp_left (fun c => sub c), ok⟩)

theorem Works.call {calls : List (Raft × Message)} {m : Message} {r r' : Raft}
    {e : Option StepError} (inside : (r, m) ∈ calls) (ok : r.step m = .ok (r', e)) :
    Works calls r r' :=
  .single (.inr ⟨m, e, .inl inside, ok⟩)

theorem stepQuietly_eq_ok {r r' : Raft} {m : Message} (ok : r.stepQuietly m = .ok r') :
    ∃ e, r.step m = .ok (r', e) := by
  obtain ⟨⟨r1, e⟩, first, ok⟩ := Outcome.bind_eq_ok.mp ok
  cases ok
  exact ⟨e, first⟩

theorem callsFrom_works {ms : List Message} {r r' : Raft}
    (ok : ms.foldlM stepQuietly r = .ok r') : Works (Node.callsFrom r ms) r r' := by
  induction ms generalizing r with
  | nil => cases ok; exact .refl
  | cons m ms ih =>
    rw [List.foldlM_cons] at ok
    obtain ⟨r1, first, rest⟩ := Outcome.bind_eq_ok.mp ok
    obtain ⟨e, stepped⟩ := stepQuietly_eq_ok first
    have later := ih rest
    simp only [Node.callsFrom, first]
    exact .head (.inr ⟨m, e, .inl (by simp), stepped⟩) (later.mono (List.subset_cons_self _ _))

theorem timer_works {calls : List (Raft × Message)} {m : Message} {r r1 r' : Raft}
    (same : Soft r r1) (timer : isTimer m) (ok : r1.stepQuietly m = .ok r') :
    Works calls r r' := by
  obtain ⟨e, stepped⟩ := stepQuietly_eq_ok ok
  exact .head (.inl same) (.single (.inr ⟨m, e, .inr timer, stepped⟩))

theorem tickElection_works {calls : List (Raft × Message)} {r r' : Raft}
    (ok : r.tickElection = .ok r') : Works calls r r' := by
  simp only [tickElection] at ok
  split at ok
  · refine timer_works ?_ (by simp [isTimer]) ok
    constructor <;> first | rfl | exact fun _ => rfl
  · cases ok
    refine .single (.inl ?_)
    constructor <;> first | rfl | exact fun _ => rfl

theorem tickQuorum_works {calls : List (Raft × Message)} {r r' : Raft}
    (ok : r.tickQuorum = .ok r') : Works calls r r' := by
  simp only [tickQuorum] at ok
  split at ok
  · obtain ⟨r1, checked, ok⟩ := Outcome.bind_eq_ok.mp ok
    have first : Works calls r r1 := by
      refine timer_works ?_ (by simp [isTimer]) checked
      constructor <;> first | rfl | exact fun _ => rfl
    cases ok
    refine first.tail (.inl ?_)
    split <;> constructor <;> first | rfl | exact fun _ => rfl
  · cases ok; exact .refl

theorem tickHeartbeat_works {calls : List (Raft × Message)} {r r' : Raft}
    (ok : r.tickHeartbeat = .ok r') : Works calls r r' := by
  obtain ⟨r1, quorum, ok⟩ := Outcome.bind_eq_ok.mp ok
  have first : Works calls r r1 := by
    refine .head (.inl ?_) (tickQuorum_works quorum)
    constructor <;> first | rfl | exact fun _ => rfl
  split at ok
  · refine first.trans (timer_works ?_ (by simp [isTimer]) ok)
    constructor <;> first | rfl | exact fun _ => rfl
  · cases ok; exact first

theorem tick_works {calls : List (Raft × Message)} {r r' : Raft} (ok : r.tick = .ok r') :
    Works calls r r' := by
  unfold tick at ok
  split at ok
  · exact tickHeartbeat_works ok
  · exact tickElection_works ok

end Raft

namespace Node

theorem handle_eq_ok {n n' : Node} {result : Raft.Result} {err : Option StepError}
    (ok : n.handle result = .ok (n', err)) : ∃ r', result = .ok (r', err) ∧ n' = n.withRaft r' := by
  obtain ⟨⟨r', e⟩, first, ok⟩ := Outcome.bind_eq_ok.mp ok
  cases ok
  exact ⟨r', first, rfl⟩

inductive Selected (n : Node) (e : Event) : Node → Prop
  | idle (refused : (∃ m, e = .step m ∧ isLocalMsg m.type = true) ∨
      (e = .accept ∧ n.readyc = false) ∨ (e = .advance ∧ n.advancec = false)) : Selected n e n
  | work (r' : Raft) (kind : e ≠ .accept ∧ e ≠ .advance)
      (works : Raft.Works (n.stepCalls e) n.r r') : Selected n e (n.withRaft r')
  | accept (kind : e = .accept) (enabled : n.readyc = true) : Selected n e n.accept
  | advance (n' : Node) (kind : e = .advance) (enabled : n.advancec = true)
      (works : Raft.Works (n.stepCalls e) (n.r.advance n.rd) n'.r) (done : n.advance = .ok n') :
      Selected n e n'

theorem select_cases {n n' : Node} {e : Event} {err : Option StepError}
    (ok : n.select e = .ok (n', err)) : Selected n e n' := by
  cases e with
  | step m =>
    simp only [select] at ok
    split at ok
    · rename_i loc
      cases ok; exact .idle (.inl ⟨m, rfl, loc⟩)
    · rename_i foreign
      obtain ⟨r', stepped, rfl⟩ := handle_eq_ok ok
      exact .work r' (by simp) (.call (m := m) (by simp [stepCalls, foreign]) stepped)
  | propose data =>
    obtain ⟨r', stepped, rfl⟩ := handle_eq_ok ok
    exact .work r' (by simp) (.call (by simp [stepCalls]) stepped)
  | campaign =>
    obtain ⟨r', stepped, rfl⟩ := handle_eq_ok ok
    exact .work r' (by simp) (.call (by simp [stepCalls]) stepped)
  | readIndex ctx =>
    obtain ⟨r', stepped, rfl⟩ := handle_eq_ok ok
    exact .work r' (by simp) (.call (by simp [stepCalls]) stepped)
  | tick =>
    obtain ⟨r', ticked, rfl⟩ := handle_eq_ok ok
    exact .work r' (by simp) (Raft.tick_works (Raft.done_eq_ok ticked))
  | accept =>
    simp only [select] at ok
    cases ok
    split
    · rename_i enabled
      exact .accept rfl enabled
    · rename_i disabled
      exact .idle (.inr (.inl ⟨rfl, by simpa using disabled⟩))
  | advance =>
    simp only [select] at ok
    split at ok
    · rename_i enabled
      obtain ⟨n1, advanced, ok⟩ := Outcome.bind_eq_ok.mp ok
      cases ok
      refine .advance n' rfl enabled ?_ advanced
      obtain ⟨r', stepped, ok⟩ := Outcome.bind_eq_ok.mp advanced
      cases ok
      simpa [stepCalls, enabled] using Raft.callsFrom_works stepped
    · rename_i disabled
      cases ok; exact .idle (.inr (.inr ⟨rfl, by simpa using disabled⟩))

/-- What a `Ready` contains. -/
structure Shows (n : Node) (rd : Ready) : Prop where
  entries : rd.entries = n.r.raftLog.unstable.entries
  committed : n.r.raftLog.nextCommittedEnts = .ok rd.committedEntries
  messages : rd.messages = n.r.messages ++ n.r.msgsAfterAppend.filter (fun m => decide (m.toId ≠ n.r.id))
  hardState : rd.hardState = if some n.r.hardState = n.prevHard then none else some n.r.hardState
  readStates : rd.readStates = n.r.readStates

theorem ready_shows {n : Node} {rd : Ready} (ok : n.ready = .ok rd) : n.Shows rd := by
  obtain ⟨full, built, shaped⟩ := Outcome.bind_eq_ok.mp ok
  obtain ⟨committedEntries, next, filled⟩ := Outcome.bind_eq_ok.mp built
  cases filled
  cases shaped
  by_cases same : some n.r.hardState = n.prevHard
  · rw [if_pos same]
    exact ⟨rfl, next, rfl, (if_pos same).symm, rfl⟩
  · rw [if_neg same]
    exact ⟨rfl, next, rfl, (if_neg same).symm, rfl⟩

theorem Selected.of_accept {n mid : Node} (enabled : n.readyc = true)
    (selected : n.Selected .accept mid) : mid = n.accept := by
  cases selected with
  | idle refused => simp [enabled] at refused
  | work _ kind => exact absurd rfl kind.1
  | accept => rfl
  | advance _ kind => cases kind

theorem Selected.of_advance {n mid : Node} (enabled : n.advancec = true)
    (selected : n.Selected .advance mid) :
    Raft.Works (n.stepCalls .advance) (n.r.advance n.rd) mid.r ∧ n.advance = .ok mid := by
  cases selected with
  | idle refused => simp [enabled] at refused
  | work _ kind => exact absurd rfl kind.2
  | accept kind => cases kind
  | advance _ _ _ works done => exact ⟨works, done⟩

end Node

theorem Raft.advanceLog_storage (l : RaftLog) (rd : Ready) : (advanceLog l rd).storage = l.storage := by
  unfold advanceLog
  cases rd.entries.getLast? <;> cases rd.committedEntries.getLast? <;>
    simp [RaftLog.appliedTo, RaftLog.stableTo]

theorem withRaft_rd (node : Node) (r : Raft) :
    (node.withRaft r).rd.messages = node.rd.messages ∧
      (node.withRaft r).rd.hardState = node.rd.hardState := by
  unfold Node.withRaft
  split <;> exact ⟨rfl, rfl⟩

theorem withRaft_rest (node : Node) (r : Raft) :
    (node.withRaft r).r = r ∧ (node.withRaft r).stepsOnAdvance = node.stepsOnAdvance ∧
      (node.withRaft r).prevHard = node.prevHard ∧ (node.withRaft r).readyc = node.readyc ∧
      (node.withRaft r).advancec = node.advancec := by
  unfold Node.withRaft
  split <;> exact ⟨rfl, rfl, rfl, rfl, rfl⟩

theorem callsFrom_mem {ms : List Message} {r : Raft} {call : Raft × Message}
    (inside : call ∈ Node.callsFrom r ms) : call.2 ∈ ms := by
  induction ms generalizing r with
  | nil => cases inside
  | cons m ms ih =>
    simp only [Node.callsFrom, List.mem_cons] at inside
    rcases inside with rfl | later
    · simp
    · split at later
      · cases later
      · exact List.mem_cons_of_mem _ (ih later)

end Kvgo

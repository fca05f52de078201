import Kvgo.Raft.Ballot
import Kvgo.Raft.Work

/-! Runs of the state machine of one node: any sequence of messages, requests and ticks, with
the host taking `Ready`s and writing to the storage in between. A panic ends the process; here
it leaves the state as it was, so that a run may go on as if the input had not come. -/

namespace Kvgo

namespace Raft

inductive Input where
  | step (m : Message)
  | propose (data : Bytes)
  | campaign
  | readIndex (ctx : Bytes)
  | tick
  /-- A `Ready` is taken. -/
  | accept
  | advance (rd : Ready)
  /-- The host writes to the storage it shares with the node. -/
  | store (storage : MemStorage)

def play (r : Raft) : Input → Except Panic Raft
  | .step m => if isLocalMsg m.type then .ok r else r.stepQuietly m
  | .propose data => do .ok (← r.propose data).1
  | .campaign => do .ok (← r.campaign).1
  | .readIndex ctx => do .ok (← r.readIndex ctx).1
  | .tick => r.tick
  | .accept => .ok { r with msgsAfterAppend := [] }
  | .advance rd => .ok (r.advance rd)
  | .store storage => .ok { r with raftLog := { r.raftLog with storage } }

def next (r : Raft) (i : Input) : Raft :=
  match r.play i with
  | .ok r' => r'
  | .error _ => r

def timer (r : Raft) : Message :=
  if r.state = .leader then { type := .msgCheckQuorum } else { type := .msgHup, fromId := r.id }

def message (r : Raft) : Input → Option Message
  | .step m => if isLocalMsg m.type then none else some m
  | .propose data => some { type := .msgProp, entries := [⟨0, 0, data⟩] }
  | .campaign => some { type := .msgHup }
  | .readIndex ctx => some { type := .msgReadIndex, context := ctx }
  | .tick => some r.timer
  | _ => none

def queued (r r' : Raft) : List Message :=
  r'.messages.drop r.messages.length ++ r'.msgsAfterAppend.drop r.msgsAfterAppend.length

theorem Queues.queued {P : Message → Prop} {r r' : Raft} (queues : Queues P r r') :
    ∀ msg ∈ r.queued r', P msg := by
  obtain ⟨new, new', messages, after, each, _⟩ := queues
  unfold Raft.queued
  rw [messages, after, List.drop_left' rfl, List.drop_left' rfl]
  exact each

/-- A call of `Step` with `m` has taken place. -/
structure Turn (m : Message) (r r' : Raft) : Prop where
  ballot : ∃ answers, r'.ballot = r.ballot.step answers m
  queues : Queues (Accounted m r'.ballot) r r'

end Raft

namespace Ballot

theorem step_beat (b : Ballot) (answers : Answers) (sender : Nat) :
    b.step answers { type := .msgBeat, fromId := sender } = b := by
  unfold step checkTerm stepType stepRole
  rw [if_neg (fun later => later.1 rfl)]
  cases role : b.state with
  | follower => rfl
  | preCandidate => simp [stepCandidate, voteRespType, role]
  | candidate => simp [stepCandidate, voteRespType, role]
  | leader => rfl

end Ballot

namespace Raft

variable {r r' r'' : Raft} {m : Message}

theorem stepQuietly_turn (ok : r.stepQuietly m = .ok r') : Turn m r r' := by
  obtain ⟨e, stepped⟩ := stepQuietly_eq_ok ok
  obtain ⟨answers, moved, queues⟩ := step_ballot stepped
  exact ⟨⟨answers, moved⟩, queues⟩

theorem beat_ballot {sender : Nat} (ok : r.stepQuietly { type := .msgBeat, fromId := sender } = .ok r') :
    r'.ballot = r.ballot ∧ Queues (Accounted m r'.ballot) r r' := by
  obtain ⟨⟨answers, moved⟩, queues⟩ := stepQuietly_turn ok
  refine ⟨moved.trans (Ballot.step_beat _ _ _), queues.mono (fun msg accounted => ⟨fun vote => ?_, accounted.2⟩)⟩
  obtain ⟨kind, _⟩ := accounted.1 vote
  cases kind

/-- A tick calls `Step` for the timer's message, or only sends heartbeats. -/
theorem tick_turn (ok : r.tick = .ok r') :
    Turn r.timer r r' ∨ r'.ballot = r.ballot ∧ Queues (Accounted r.timer r'.ballot) r r' := by
  unfold tick at ok
  unfold timer
  by_cases leads : r.state = .leader
  · rw [if_pos leads] at ok
    rw [if_pos leads]
    obtain ⟨r1, first, ok⟩ := Outcome.bind_eq_ok.mp ok
    have rest : r'.ballot = r1.ballot ∧ Queues (Accounted { type := .msgCheckQuorum } r'.ballot) r1 r' := by
      split at ok
      · obtain ⟨same, queues⟩ := beat_ballot ok
        exact ⟨same, .trans (.of_eq rfl rfl) queues⟩
      · cases ok
        exact ⟨rfl, .refl⟩
    unfold tickQuorum at first
    split at first
    · obtain ⟨r2, checked, first⟩ := Outcome.bind_eq_ok.mp first
      obtain ⟨⟨answers, moved⟩, queues⟩ := stepQuietly_turn checked
      have aborted : r1.ballot = r2.ballot ∧ Queues (Accounted { type := .msgCheckQuorum } r'.ballot) r2 r1 := by
        cases first
        split
        · exact ⟨rfl, .of_eq rfl rfl⟩
        · exact ⟨rfl, .refl⟩
      left
      refine ⟨⟨answers, (rest.1.trans aborted.1).trans moved⟩, ?_⟩
      rw [← aborted.1, ← rest.1] at queues
      exact (Queues.trans (.of_eq rfl rfl) queues).trans (aborted.2.trans rest.2)
    · cases first
      exact .inr ⟨rest.1, .trans (.of_eq rfl rfl) rest.2⟩
  · rw [if_neg leads] at ok
    rw [if_neg leads]
    unfold tickElection at ok
    simp only at ok
    split at ok
    · obtain ⟨⟨answers, moved⟩, queues⟩ := stepQuietly_turn ok
      exact .inl ⟨⟨answers, moved⟩, .trans (.of_eq rfl rfl) queues⟩
    · cases ok
      exact .inr ⟨rfl, .of_eq rfl rfl⟩

/-- An input that does not step its message leaves the ballot alone and gives no vote. -/
structure Idles (r r' : Raft) : Prop where
  ballot : r'.ballot = r.ballot
  plain : ∀ msg ∈ r.queued r', r'.ballot.Plain msg

theorem queued_self (r : Raft) : r.queued r = [] := by simp [queued]

theorem Idles.refl (r : Raft) : Idles r r := ⟨rfl, by simp [queued_self]⟩

theorem timer_type (r : Raft) : r.timer.type ≠ .msgVote := by
  unfold timer
  split <;> simp

/-- Every input is a call of `Step` with its message, as far as the ballot goes, or idles. -/
theorem next_turn (r : Raft) (i : Input) :
    Idles r (r.next i) ∨ ∃ m, r.message i = some m ∧ Turn m r (r.next i) := by
  unfold next
  cases played : r.play i with
  | error p => exact .inl (.refl r)
  | ok r' =>
    dsimp only
    have request : ∀ m, r.message i = some m → (do .ok (← r.step m).1 : Except Panic Raft) = .ok r' →
        ∃ m, r.message i = some m ∧ Turn m r r' :=
      fun m here ok => ⟨m, here, stepQuietly_turn ok⟩
    cases i with
    | step m =>
      simp only [play] at played
      split at played
      · cases played
        exact .inl (.refl r)
      · rename_i foreign
        exact .inr ⟨m, if_neg foreign, stepQuietly_turn played⟩
    | propose data => exact .inr (request _ rfl played)
    | campaign => exact .inr (request _ rfl played)
    | readIndex ctx => exact .inr (request _ rfl played)
    | tick =>
      rcases tick_turn played with turn | ⟨same, queues⟩
      · exact .inr ⟨r.timer, rfl, turn⟩
      · refine .inl ⟨same, fun msg inside => ⟨?_, (queues.queued msg inside).2⟩⟩
        by_contra vote
        exact timer_type r ((queues.queued msg inside).1 (by simpa using vote)).1
    | accept =>
      cases played
      exact .inl ⟨rfl, by simp [queued]⟩
    | advance rd =>
      cases played
      exact .inl ⟨rfl, by simp [queued, Raft.advance]⟩
    | store storage =>
      cases played
      exact .inl ⟨rfl, by simp [queued]⟩

theorem play_turn {r r' : Raft} {i : Input} (ok : r.play i = .ok r') :
    Idles r r' ∨ ∃ m, r.message i = some m ∧ Turn m r r' := by
  have turn := next_turn r i
  rw [next, ok] at turn
  exact turn

theorem play_id {r r' : Raft} {i : Input} (ok : r.play i = .ok r') : r'.id = r.id := by
  rcases play_turn ok with idle | ⟨m, _, ⟨answers, moved⟩, _⟩
  · exact congrArg Ballot.id idle.ballot
  · exact (congrArg Ballot.id moved).trans (Ballot.step_same _ answers m).id

theorem play_hails {r r' : Raft} {i : Input} (ok : r.play i = .ok r') {msg : Message}
    (inside : msg ∈ r.queued r') (hail : isHail msg = true) :
    r'.state = .leader ∧ msg.term = r'.term ∧ msg.fromId = r'.id := by
  rcases play_turn ok with idle | ⟨m, _, _, queues⟩
  · exact (idle.plain msg inside).2 hail
  · exact (queues.queued msg inside).2 hail

/-- What an input leaves in the buffers was there or is new, in the buffer for its type. -/
theorem play_buffers {r r' : Raft} {i : Input} (ok : r.play i = .ok r') :
    (∀ msg ∈ r'.messages ++ r'.msgsAfterAppend, msg ∈ r.messages ++ r.msgsAfterAppend ∨ msg ∈ r.queued r') ∧
      ∀ msg ∈ r'.msgsAfterAppend, msg ∈ r.msgsAfterAppend ∨ afterAppend msg.type = true := by
  have of_queues : ∀ {P : Message → Prop}, Queues P r r' →
      (∀ msg ∈ r'.messages ++ r'.msgsAfterAppend, msg ∈ r.messages ++ r.msgsAfterAppend ∨ msg ∈ r.queued r') ∧
      ∀ msg ∈ r'.msgsAfterAppend, msg ∈ r.msgsAfterAppend ∨ afterAppend msg.type = true := by
    rintro P ⟨new, new', messages, after, _, kind⟩
    refine ⟨fun msg inside => ?_, fun msg inside => ?_⟩
    · unfold queued
      rw [messages, after, List.drop_left' rfl, List.drop_left' rfl]
      rw [messages, after] at inside
      simp only [List.mem_append] at inside ⊢
      tauto
    · rw [after] at inside
      exact (List.mem_append.mp inside).imp_right (kind msg)
  have request : ∀ m, (do .ok (← r.step m).1 : Except Panic Raft) = .ok r' → _ :=
    fun m ok => of_queues (stepQuietly_turn ok).queues
  cases i with
  | step m =>
    simp only [play] at ok
    split at ok
    · cases ok
      exact ⟨fun _ => .inl, fun _ => .inl⟩
    · exact of_queues (stepQuietly_turn ok).queues
  | propose data => exact request _ ok
  | campaign => exact request _ ok
  | readIndex ctx => exact request _ ok
  | tick =>
    rcases tick_turn ok with turn | ⟨_, queues⟩
    · exact of_queues turn.queues
    · exact of_queues queues
  | accept =>
    cases ok
    exact ⟨fun msg inside => .inl (List.mem_append_left _ (by simpa using inside)), by simp⟩
  | advance rd =>
    cases ok
    exact ⟨fun msg inside => .inl (List.mem_append_right _ inside), fun _ => .inl⟩
  | store storage =>
    cases ok
    exact ⟨fun _ => .inl, fun _ => .inl⟩

end Raft

namespace Node

def inputs (n : Node) : Event → List Raft.Input
  | .step m => [.step m]
  | .propose data => [.propose data]
  | .campaign => [.campaign]
  | .readIndex ctx => [.readIndex ctx]
  | .tick => [.tick]
  | .accept => if n.readyc then [.accept] else []
  | .advance => if n.advancec then .advance n.rd :: n.stepsOnAdvance.map .step else []

theorem foldlM_steps {ms : List Message} (foreign : ∀ m ∈ ms, isLocalMsg m.type = false) (r : Raft) :
    (ms.map Raft.Input.step).foldlM Raft.play r = ms.foldlM Raft.stepQuietly r := by
  induction ms generalizing r with
  | nil => rfl
  | cons m ms ih =>
    have one : r.play (.step m) = r.stepQuietly m := by simp [Raft.play, foreign m]
    rw [List.map_cons, List.foldlM_cons, List.foldlM_cons, one]
    refine congrArg (r.stepQuietly m >>= ·) (funext (fun r1 => ?_))
    exact ih (fun m inside => foreign m (by simp [inside])) r1

/-- An arm that returns has played its inputs. -/
theorem select_inputs {n n' : Node} {e : Event} {err : Option StepError}
    (foreign : ∀ m ∈ n.stepsOnAdvance, isLocalMsg m.type = false) (ok : n.select e = .ok (n', err)) :
    (n.inputs e).foldlM Raft.play n.r = .ok n'.r := by
  have request : ∀ {i : Raft.Input} {result : Raft.Result}, n.handle result = .ok (n', err) →
      (∀ r', result = .ok (r', err) → n.r.play i = .ok r') → [i].foldlM Raft.play n.r = .ok n'.r := by
    intro i result ok same
    obtain ⟨r', stepped, rfl⟩ := handle_eq_ok ok
    rw [(withRaft_rest n r').1, List.foldlM_cons, same r' stepped]
    rfl
  cases e with
  | step m =>
    simp only [select] at ok
    split at ok
    · rename_i loc
      cases ok
      simp only [inputs, List.foldlM_cons, Raft.play, if_pos loc]
      rfl
    · rename_i foreign
      refine request ok (fun r' stepped => ?_)
      simp only [Raft.play, if_neg foreign, Raft.stepQuietly, stepped]
      rfl
  | propose data => exact request ok (fun r' stepped => by simp only [Raft.play, stepped]; rfl)
  | campaign => exact request ok (fun r' stepped => by simp only [Raft.play, stepped]; rfl)
  | readIndex ctx => exact request ok (fun r' stepped => by simp only [Raft.play, stepped]; rfl)
  | tick => exact request ok (fun r' ticked => Raft.done_eq_ok ticked)
  | accept =>
    simp only [select] at ok
    cases ok
    simp only [inputs]
    split
    · rfl
    · rfl
  | advance =>
    simp only [select] at ok
    simp only [inputs]
    split at ok
    · rename_i enabled
      obtain ⟨n1, advanced, ok⟩ := Outcome.bind_eq_ok.mp ok
      cases ok
      obtain ⟨r', stepped, ok⟩ := Outcome.bind_eq_ok.mp advanced
      cases ok
      rw [if_pos enabled, List.foldlM_cons]
      exact (foldlM_steps foreign _).trans stepped
    · rename_i disabled
      cases ok
      rw [if_neg disabled]
      rfl

end Node

end Kvgo

import Kvgo.Engine.Compaction

/-! The group committer of a shard and the callers of `put` and `putAsync`
(`group_committer.go`, `shard.go`), as one state machine.

A caller stands at the `select` that sends its request or gives up when `stopCh` is closed.
The committer takes requests from the channel into its buffer, flushes the buffer when it is
full, on a tick, before a compaction and at shutdown, and then applies and answers the
requests of the flushed batch one by one. Each event is one step of one goroutine; where a
`select` has several ready cases, every choice is an event. The history of the requests is
kept beside the state. -/

namespace Kvgo

namespace Engine

def syncBatchSize : Nat := 100

/-- `flush` up to the writes to the two files; `none` if a write fails. -/
def Shard.writeBatch (s : Shard) (batch : List WriteRequest) : Option Shard := do
  let values := (batch.map WriteRequest.value).flatten
  let s' ← s.writeValue values
  some { s' with
    indexFile := s'.indexFile ++ Shard.encodeBatch s.valueOffset batch
    valueOffset := s.valueOffset + values.length }

inductive Stage where
  /-- At the `select` of the main loop. -/
  | running
  /-- In `drainReqCh`, before the work of a compaction or cleanup request. -/
  | draining (work : Shard → Option Shard)
  /-- `drainReqCh` has found the channel empty; the work comes next. -/
  | compacting (work : Shard → Option Shard)
  /-- In `drainAllForShutdown`. -/
  | stopping
  /-- `drainAllForShutdown` has found the channel empty; `doneCh` is closed next. -/
  | exiting
  /-- `doneCh` is closed. -/
  | done

structure Committer where
  shard : Shard := {}
  /-- The callers that stand at the `select` of `put` or `putAsync`. -/
  sending : List WriteRequest := []
  reqCh : List WriteRequest := []
  buf : List WriteRequest := []
  /-- The part of the flushed batch that is still to be applied and answered. -/
  acking : List WriteRequest := []
  stage : Stage := .running
  cancelled : Bool := false
  stopped : Bool := false
  /-- Calls in the order in which they began. -/
  begun : List WriteRequest := []
  /-- Requests in the order in which they entered `reqCh`. -/
  accepted : List WriteRequest := []
  /-- Requests in the order in which they were written to the files. -/
  flushed : List WriteRequest := []
  /-- Requests in the order in which they were applied to the map. -/
  applied : List WriteRequest := []
  /-- Requests in the order in which their `respCh` was answered. -/
  answered : List WriteRequest := []

inductive CommitEvent where
  /-- A call begins; a `putAsync` applies to the map at once. -/
  | begin (r : WriteRequest)
  /-- The `select` of the caller at a position takes the send. -/
  | send (position : Nat)
  /-- The `select` of the caller at a position takes `<-stopCh`. -/
  | giveUp (position : Nat)
  /-- The committer applies and answers the next request of the flushed batch. -/
  | ack
  /-- The committer takes a request from the channel, in the main loop or a drain loop. -/
  | receive
  | tick
  /-- A compaction or cleanup request arrives; its work may panic, as `snapshot` does if a `putAsync` adds a key
  between its two loops and `doCleanup` on a key that its buffer cannot hold. -/
  | compact (work : Shard → Option Shard)
  /-- The main loop sees that `stopCh` is closed. -/
  | notice
  /-- A drain loop takes its `default` case. -/
  | drained
  /-- The work after a drain: the compaction, or closing `doneCh`. -/
  | finish
  /-- `Close` cancels the context, and then closes `stopCh`. -/
  | cancel
  | stop

namespace Committer

def isRunning (c : Committer) : Bool := match c.stage with | .running => true | _ => false

def isTaking (c : Committer) : Bool :=
  match c.stage with
  | .running | .draining _ | .stopping => true
  | _ => false

def isClosing (c : Committer) : Bool := match c.stage with | .exiting | .done => true | _ => false

/-- `flush` of the buffer. A failed write is answered to all its callers and ends the
committer, which closes `doneCh` on its way out. -/
def flush (c : Committer) : Committer :=
  match c.shard.writeBatch c.buf with
  | none => { c with stage := .done, answered := c.answered ++ c.buf.filter WriteRequest.sync }
  | some shard => { c with shard, flushed := c.flushed ++ c.buf, acking := c.buf, buf := [] }

def appendToBatch (c : Committer) (r : WriteRequest) : Committer :=
  let c := { c with buf := c.buf ++ [r] }
  if syncBatchSize ≤ c.buf.length then c.flush else c

def flushBuffered (c : Committer) : Committer := if c.buf = [] then c else c.flush

def begin (c : Committer) (r : WriteRequest) : Committer :=
  if r.sync then
    if c.cancelled then c
    else { c with sending := c.sending ++ [r], begun := c.begun ++ [r] }
  else { c with
    shard := c.shard.putInternal r.key r.value
    sending := c.sending ++ [r]
    begun := c.begun ++ [r]
    applied := c.applied ++ [r] }

def send (c : Committer) (position : Nat) : Committer :=
  match c.sending[position]? with
  | none => c
  | some r =>
    if c.reqCh.length < syncBatchSize * 2 then
      { c with
        sending := c.sending.eraseIdx position
        reqCh := c.reqCh ++ [r]
        accepted := c.accepted ++ [r] }
    else c

def ack (c : Committer) : Committer :=
  match c.acking with
  | [] => c
  | r :: rest =>
    if r.sync then
      { c with
        shard := c.shard.putInternal r.key r.value
        acking := rest
        applied := c.applied ++ [r]
        answered := c.answered ++ [r] }
    else { c with acking := rest }

def receive (c : Committer) : Committer :=
  match c.reqCh with
  | [] => c
  | r :: rest => if c.isTaking then { c with reqCh := rest }.appendToBatch r else c

def drained (c : Committer) : Committer :=
  if c.reqCh = [] then
    match c.stage with
    | .draining work => { c with stage := .compacting work }.flushBuffered
    | .stopping => { c with stage := .exiting }.flushBuffered
    | _ => c
  else c

def finish (c : Committer) : Committer :=
  match c.stage with
  | .compacting work =>
    match work c.shard with
    | some shard => { c with shard, stage := .running }
    | none => { c with stage := .done }
  | .exiting => { c with stage := .done }
  | _ => c

def step (c : Committer) : CommitEvent → Committer
  | .begin r => c.begin r
  | .send position => c.send position
  | .giveUp position =>
    if c.stopped then { c with sending := c.sending.eraseIdx position } else c
  | .ack => c.ack
  | .receive => if c.acking = [] then c.receive else c
  | .tick => if c.acking = [] ∧ c.isRunning then c.flushBuffered else c
  | .compact work =>
    if c.acking = [] ∧ c.isRunning then { c with stage := .draining work } else c
  | .notice => if c.acking = [] ∧ c.isRunning ∧ c.stopped then { c with stage := .stopping } else c
  | .drained => if c.acking = [] then c.drained else c
  | .finish => if c.acking = [] then c.finish else c
  | .cancel => { c with cancelled := true }
  | .stop => { c with stopped := true }

def HasRoom (c : Committer) : Prop :=
  c.shard.valueFile.length + ((c.buf ++ c.reqCh).map WriteRequest.value).flatten.length < 2 ^ 63

def Works (c : Committer) : Bool :=
  match c.stage with
  | .compacting work => (work c.shard).isSome
  | _ => true

/-- What a shutdown without loss needs of a step: no request is accepted after the last look
at the channel, no work panics, and the file writes succeed. -/
def Timely (c : Committer) : CommitEvent → Prop
  | .send _ => c.isClosing = false ∧ c.HasRoom
  | .finish => c.Works = true ∧ c.HasRoom
  | _ => c.HasRoom

instance (c : Committer) : Decidable c.HasRoom := inferInstanceAs (Decidable (_ < _))

instance (c : Committer) (e : CommitEvent) : Decidable (c.Timely e) :=
  match e with
  | .send _ => inferInstanceAs (Decidable (_ ∧ c.HasRoom))
  | .finish => inferInstanceAs (Decidable (_ ∧ c.HasRoom))
  | .begin _ | .giveUp _ | .ack | .receive | .tick | .compact _ | .notice | .drained
  | .cancel | .stop => inferInstanceAs (Decidable c.HasRoom)

/-- Every accepted request is on its way through the buffer or flushed, in the order of
acceptance, and the answers follow the flushed requests in that order; once the committer
has closed `doneCh`, all are flushed and answered. -/
structure NoWriteLost (c : Committer) : Prop where
  order : c.accepted = c.flushed ++ c.buf ++ c.reqCh
  answers : c.flushed.filter WriteRequest.sync = c.answered ++ c.acking.filter WriteRequest.sync
  closed : c.stage = .done →
    c.reqCh = [] ∧ c.flushed = c.accepted ∧ c.answered = c.accepted.filter WriteRequest.sync

/-- The invariant behind it: after the last look nothing is left in the channel and the buffer,
and `doneCh` is closed only after the last answer. -/
structure Accounted (c : Committer) : Prop where
  order : c.accepted = c.flushed ++ c.buf ++ c.reqCh
  answers : c.flushed.filter WriteRequest.sync = c.answered ++ c.acking.filter WriteRequest.sync
  drained : c.isClosing = true → c.buf = [] ∧ c.reqCh = []
  acked : c.stage = .done → c.acking = []

theorem Accounted.noWriteLost {c : Committer} (good : Accounted c) : NoWriteLost c := by
  refine ⟨good.order, good.answers, fun done => ?_⟩
  obtain ⟨buf, reqCh⟩ := good.drained (by rw [isClosing, done])
  have order := good.order
  have answers := good.answers
  rw [buf, reqCh, List.append_nil, List.append_nil] at order
  rw [good.acked done, List.filter_nil, List.append_nil] at answers
  exact ⟨reqCh, order.symm, by rw [order, answers]⟩

theorem writeBatch_eq {s : Shard} {batch : List WriteRequest}
    (room : s.valueFile.length + (batch.map WriteRequest.value).flatten.length < 2 ^ 63) :
    ∃ s', s.writeBatch batch = some s' := by
  rw [Shard.writeBatch, Shard.writeValue, if_neg (by omega)]
  exact ⟨_, rfl⟩

theorem Accounted.enter {c : Committer} (good : Accounted c) (shard : Shard) {stage : Stage}
    (early : { c with shard, stage }.isClosing = false) : Accounted { c with shard, stage } := by
  refine ⟨good.order, good.answers, fun closing => ?_, fun done => ?_⟩
  · rw [early] at closing
    cases closing
  · change stage = .done at done
    subst done
    cases early

theorem Accounted.flush {c : Committer} (good : Accounted c) (idle : c.acking = [])
    (room : c.shard.valueFile.length + (c.buf.map WriteRequest.value).flatten.length < 2 ^ 63)
    (more : c.stage ≠ .done) : Accounted c.flush := by
  obtain ⟨s, wrote⟩ := writeBatch_eq room
  have answers := good.answers
  rw [idle, List.filter_nil, List.append_nil] at answers
  rw [Committer.flush, wrote]
  exact ⟨by simpa using good.order, by simp [answers], fun closing => ⟨rfl, (good.drained closing).2⟩,
    fun done => absurd done more⟩

theorem Accounted.flushBuffered {c : Committer} (good : Accounted c) (idle : c.acking = [])
    (room : c.HasRoom) (more : c.stage ≠ .done) : Accounted c.flushBuffered := by
  unfold Committer.flushBuffered
  split
  · exact good
  · refine good.flush idle ?_ more
    unfold HasRoom at room
    rw [List.map_append, List.flatten_append, List.length_append] at room
    omega

/-- A request taken from the channel goes to the end of the buffer, and with it to the files
if the buffer is full. -/
theorem Accounted.receive {c : Committer} (good : Accounted c) (idle : c.acking = [])
    (room : c.HasRoom) : Accounted c.receive := by
  unfold Committer.receive
  split
  · exact good
  · next r rest waiting =>
    split
    · next taking =>
      have more : c.stage ≠ .done := by
        intro done
        rw [isTaking, done] at taking
        cases taking
      have open' : c.isClosing = false := by
        unfold isTaking at taking
        unfold isClosing
        split at taking <;> simp_all
      have taken : Accounted { c with reqCh := rest, buf := c.buf ++ [r] } :=
        { order := by rw [good.order, waiting]; simp
          answers := good.answers
          drained := fun closing => by
            have closed : c.isClosing = true := closing
            rw [open'] at closed
            cases closed
          acked := good.acked }
      unfold appendToBatch
      dsimp only
      split
      · refine taken.flush idle ?_ more
        unfold HasRoom at room
        rw [waiting, List.append_cons, List.map_append, List.flatten_append, List.length_append] at room
        exact lt_of_le_of_lt (by simp only; omega) room
      · exact taken
    · exact good

theorem Accounted.ack {c : Committer} (good : Accounted c) : Accounted c.ack := by
  unfold Committer.ack
  split
  · exact good
  · next r rest waiting =>
    have answers := good.answers
    rw [waiting] at answers
    split
    · next sync =>
      refine ⟨good.order, ?_, good.drained, fun done => ?_⟩
      · simpa [sync] using answers
      · have none := good.acked done
        rw [waiting] at none
        cases none
    · next async =>
      refine ⟨good.order, ?_, good.drained, fun done => ?_⟩
      · simpa [async] using answers
      · have none := good.acked done
        rw [waiting] at none
        cases none

/-- The end of a drain: the channel is empty, the buffer is flushed. -/
theorem Accounted.endDrain {c : Committer} (good : Accounted c) (idle : c.acking = [])
    (room : c.HasRoom) : Accounted c.drained := by
  unfold Committer.drained
  split
  · next empty =>
    split
    · next work here =>
      have next : Accounted { c with stage := .compacting work } := good.enter c.shard rfl
      exact next.flushBuffered idle room (by intro done; cases done)
    · next here =>
      -- the invariant of the closing stages holds only after the flush, so it is shown directly
      unfold Committer.flushBuffered
      split
      · next none =>
        exact ⟨good.order, good.answers, fun _ => ⟨none, empty⟩, fun done => by cases done⟩
      · have running : Accounted { c with stage := .running } := good.enter c.shard rfl
        have small : c.shard.valueFile.length + (c.buf.map WriteRequest.value).flatten.length < 2 ^ 63 := by
          unfold HasRoom at room
          rw [List.map_append, List.flatten_append, List.length_append] at room
          omega
        obtain ⟨s, wrote⟩ := writeBatch_eq small
        have after := running.flush idle small (by intro done; cases done)
        rw [Committer.flush, wrote] at after ⊢
        exact ⟨after.order, after.answers, fun _ => ⟨rfl, empty⟩, fun done => by cases done⟩
    · exact good
  · exact good

theorem Accounted.finish {c : Committer} (good : Accounted c) (idle : c.acking = []) (works : c.Works = true) :
    Accounted c.finish := by
  unfold Committer.finish
  split
  · next work here =>
    rw [Works, here] at works
    obtain ⟨shard, done⟩ := Option.isSome_iff_exists.mp works
    rw [done]
    exact good.enter shard rfl
  · next here =>
    exact ⟨good.order, good.answers, fun _ => good.drained (by rw [isClosing, here]), fun _ => idle⟩
  · exact good

theorem Accounted.send {c : Committer} (good : Accounted c) {position : Nat}
    (timely : c.isClosing = false) : Accounted (c.send position) := by
  unfold Committer.send
  split
  · exact good
  · split
    · refine ⟨by simp [good.order], good.answers, fun closing => ?_, good.acked⟩
      have closed : c.isClosing = true := closing
      rw [timely] at closed
      cases closed
    · exact good

theorem Accounted.begin {c : Committer} (good : Accounted c) (r : WriteRequest) :
    Accounted (c.begin r) := by
  unfold Committer.begin
  split
  · split
    · exact good
    · exact ⟨good.order, good.answers, good.drained, good.acked⟩
  · exact ⟨good.order, good.answers, good.drained, good.acked⟩

theorem isRunning_open {c : Committer} (running : c.isRunning = true) : c.stage ≠ .done := by
  intro done
  rw [isRunning, done] at running
  cases running

theorem Accounted.step {c : Committer} (good : Accounted c) {e : CommitEvent} (timely : c.Timely e) :
    Accounted (c.step e) := by
  cases e with
  | begin r => exact good.begin r
  | send position => exact good.send timely.1
  | giveUp position =>
    simp only [Committer.step]
    split
    · exact ⟨good.order, good.answers, good.drained, good.acked⟩
    · exact good
  | ack => exact good.ack
  | receive =>
    simp only [Committer.step]
    split
    · next idle => exact good.receive idle timely
    · exact good
  | tick =>
    simp only [Committer.step]
    split
    · next enabled => exact good.flushBuffered enabled.1 timely (isRunning_open enabled.2)
    · exact good
  | compact work =>
    simp only [Committer.step]
    split
    · exact good.enter c.shard rfl
    · exact good
  | notice =>
    simp only [Committer.step]
    split
    · exact good.enter c.shard rfl
    · exact good
  | drained =>
    simp only [Committer.step]
    split
    · next idle => exact good.endDrain idle timely
    · exact good
  | finish =>
    simp only [Committer.step]
    split
    · next idle => exact good.finish idle timely.1
    · exact good
  | cancel => exact ⟨good.order, good.answers, good.drained, good.acked⟩
  | stop => exact ⟨good.order, good.answers, good.drained, good.acked⟩

def start (s : Shard) : Committer where
  shard := s

theorem Accounted.start (s : Shard) : Accounted (start s) :=
  ⟨rfl, rfl, (by intro closing; cases closing), (by intro done; cases done)⟩

/-- No accepted write is lost in a run whose steps are all timely. -/
theorem no_write_lost (s : Shard) (events : List CommitEvent)
    (timely : Runs.Along step Timely (start s) events) :
    NoWriteLost (Runs.exec step (start s) events) :=
  (Runs.invariant step Accounted (fun _ _ good ok => good.step ok) (.start s) timely).noWriteLost

/-- A `put` is accepted, a compaction drains the channel, and a second `put` is accepted before the shard is
closed; the committer drains again, flushes, answers and exits. -/
def orderlyClose : List CommitEvent :=
  [.begin ⟨[97], [1], true⟩, .send 0, .compact (fun s => some (s.doCompact [[97]])), .receive, .drained, .ack,
    .begin ⟨[98], [2], true⟩, .finish, .send 0, .cancel, .stop, .notice, .receive, .drained, .ack, .finish]

theorem orderlyClose_keeps_write :
    NoWriteLost (Runs.exec step (start {}) orderlyClose) ∧
      (Runs.exec step (start {}) orderlyClose).flushed = [⟨[97], [1], true⟩, ⟨[98], [2], true⟩] :=
  ⟨no_write_lost {} orderlyClose (by decide +kernel), by decide +kernel⟩

/-- The caller of `put` passes the check of the context, then the shard is closed and the
committer exits. The channel still has room, so the `select` of the caller may take the send. -/
def lateSend : List CommitEvent :=
  [.begin ⟨[97], [1], true⟩, .cancel, .stop, .notice, .drained, .finish, .send 0]

theorem lateSend_loses_write :
    (Runs.exec step (start {}) lateSend).accepted = [⟨[97], [1], true⟩] ∧
      (Runs.exec step (start {}) lateSend).reqCh = [⟨[97], [1], true⟩] ∧
      ¬NoWriteLost (Runs.exec step (start {}) lateSend) := by
  have kept : (Runs.exec step (start {}) lateSend).reqCh = [⟨[97], [1], true⟩] := by decide +kernel
  refine ⟨by decide +kernel, kept, fun good => ?_⟩
  have done : (Runs.exec step (start {}) lateSend).stage = .done := rfl
  have empty := (good.closed done).1
  rw [kept] at empty
  cases empty

end Committer

end Engine

end Kvgo

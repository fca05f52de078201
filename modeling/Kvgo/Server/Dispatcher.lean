import Kvgo.Protocol.Message
import Kvgo.Transport.Stream

/-! The server's side of a connection: the loop of `dispatcher.go` with the handlers of `handler_kv.go`, on
`Receive` and `Send` of `multiplexed_transport.go`. `Receive` keeps the number of the request it has read, and
the next `Send` puts it in front of its payload and forgets it.

What raft, the state machine and the connection do in one pass of the loop is a record of arbitrary answers. -/

namespace Kvgo

open Words

namespace Server

open Transport Protocol

def cmdGet : UInt8 := 1

theorem cmdPut_ne_cmdGet : cmdPut ≠ cmdGet := by decide

structure Conn where
  /-- What the client has sent and `Receive` has not read. -/
  incoming : Bytes
  outgoing : Bytes := []
  lastRecvId : Nat := 0
  /-- The buffered writer keeps its first error and takes nothing more. -/
  broken : Bool := false
  deriving DecidableEq, Repr

/-- How a call of `proposeRead` returns. -/
inductive ReadResult where
  | ok
  | deadlineExceeded
  | failed
  deriving DecidableEq, Repr

structure Turn where
  /-- The deadline of the read passes. -/
  expired : Bool := false
  /-- `proposePut` returns nil. -/
  proposePut : Bool := true
  proposeRead : ReadResult := .ok
  sm : Bytes → Option Bytes := fun _ => none
  /-- How many bytes get out before the write of the handler fails, if it fails. -/
  handlerFails : Option Nat := none
  /-- The same for the write of the loop itself. -/
  loopFails : Option Nat := none

namespace Conn

/-- `Framer.Write`. -/
def write (t : Conn) (payload : Bytes) (fails : Option Nat) : Conn × Bool :=
  match writeFrame payload with
  | .error _ => (t, false)
  | .ok frame =>
    if t.broken then (t, false)
    else
      match fails with
      | none => ({ t with outgoing := t.outgoing ++ frame }, true)
      | some cut => ({ t with outgoing := t.outgoing ++ frame.take cut, broken := true }, false)

def send (t : Conn) (payload : Bytes) (fails : Option Nat) : Conn × Bool :=
  if payload = [] then (t, false)
  else ({ t with lastRecvId := 0 } : Conn).write (le 4 t.lastRecvId ++ payload) fails

def receive (t : Conn) : Option (Conn × Bytes) :=
  match readFrameMax t.incoming defaultMaxFrameSize with
  | .error _ => none
  | .ok (payload, rest) =>
    if payload.length ≤ 4 then none
    else some ({ t with incoming := rest, lastRecvId := ofLE (payload.take 4) }, payload.drop 4)

def writeResponse (t : Conn) (resp : Response) (fails : Option Nat) : Conn × Bool :=
  match encodeResponse resp with
  | some (.ok payload) => t.send payload fails
  | _ => (t, false)

def responseWithStatus (t : Conn) (status : UInt8) (fails : Option Nat) : Conn × Bool :=
  t.writeResponse { status } fails

def handleGet (turn : Turn) (t : Conn) (req : Request) : Conn × Bool :=
  match turn.proposeRead with
  | .deadlineExceeded => t.responseWithStatus statusTimeout turn.handlerFails
  | .failed => t.responseWithStatus statusError turn.handlerFails
  | .ok =>
    match turn.sm req.key with
    | none => t.writeResponse { status := statusNotFound } turn.handlerFails
    | some val => t.writeResponse { status := statusOK, value := val } turn.handlerFails

def handlePut (turn : Turn) (t : Conn) (_ : Request) : Conn × Bool :=
  if turn.proposePut then t.responseWithStatus statusOK turn.handlerFails else (t, false)

def requestHandlers (cmd : UInt8) : Option (Turn → Conn → Request → Conn × Bool) :=
  if cmd = cmdGet then some handleGet else if cmd = cmdPut then some handlePut else none

/-- One pass of the loop of `handleRequest`; false if the loop returns. -/
def pass (t : Conn) (turn : Turn) : Conn × Bool :=
  if turn.expired then (t, false)
  else
    match t.receive with
    | none => (t, false)
    | some (t, payload) =>
      match Protocol.decodeRequest payload with
      | some (.ok req) =>
        match requestHandlers req.cmd with
        | none => t.writeResponse { status := statusError } turn.loopFails
        | some handler =>
          -- a handler whose own write has failed returns that error, and the loop writes once more
          if (handler turn t req).2 then ((handler turn t req).1, true)
          else (handler turn t req).1.writeResponse { status := statusError } turn.loopFails
      | _ => t.writeResponse { status := statusError } turn.loopFails

def handleRequest (t : Conn) : List Turn → Conn × Bool
  | [] => (t, true)
  | turn :: turns => if (t.pass turn).2 then handleRequest (t.pass turn).1 turns else ((t.pass turn).1, false)

end Conn

/-! ### What the client should read -/

def reply (turn : Turn) (payload : Bytes) : Response :=
  match decodeRequest payload with
  | none => { status := statusError }
  | some req =>
    if req.cmd = cmdGet then
      match turn.proposeRead, turn.sm req.key with
      | .deadlineExceeded, _ => { status := statusTimeout }
      | .failed, _ => { status := statusError }
      | .ok, none => { status := statusNotFound }
      | .ok, some val => { status := statusOK, value := val }
    else { status := if req.cmd = cmdPut ∧ turn.proposePut = true then statusOK else statusError }

def response (turn : Turn) (request : Bytes) : Bytes := request.take 4 ++ layout (reply turn (request.drop 4))

def requests (passes : Nat) (incoming : Bytes) : List Bytes :=
  (readStream defaultMaxFrameSize passes incoming).1.takeWhile fun q => decide (4 < q.length)

def answers (turns : List Turn) (incoming : Bytes) : List Bytes :=
  List.zipWith response turns (requests turns.length incoming)

namespace Turn

/-- A value of the map fits into a response frame. A value put by an HTTP request may be longer: its handler
takes a body of up to 16 MiB. -/
def Bounded (turn : Turn) : Prop := ∀ key, ∀ val ∈ turn.sm key, val.length + 17 ≤ defaultMaxFrameSize

def smooth (turn : Turn) : Bool := !turn.expired && turn.handlerFails.isNone && turn.loopFails.isNone

end Turn

structure Fits (resp : Response) : Prop where
  admitted : Admitted resp
  small : resp.value.length + 17 ≤ defaultMaxFrameSize

theorem fits_status {status : UInt8} (known : ¬ statusMaxKnown < status) : Fits { status } where
  admitted := ⟨by simp, known, by simp⟩
  small := by simp [defaultMaxFrameSize]

theorem fits_error : Fits { status := statusError } := fits_status (by decide)

theorem reply_fits {turn : Turn} (bounded : turn.Bounded) (payload : Bytes) : Fits (reply turn payload) := by
  unfold reply
  split
  · exact fits_error
  · next req _ =>
    split
    · split
      · exact fits_status (by decide)
      · exact fits_error
      · exact fits_status (by decide)
      · next val _ found =>
        have small := bounded req.key val found
        have word : val.length < 2 ^ 32 := by
          rw [defaultMaxFrameSize] at small
          omega
        exact ⟨⟨word, show ¬statusMaxKnown < statusOK by decide, by simp [statusCanCarryValue]⟩, small⟩
    · split
      · exact fits_status (by decide)
      · exact fits_error

theorem response_length {turn : Turn} {q : Bytes} (long : 4 < q.length) :
    (response turn q).length = (reply turn (q.drop 4)).value.length + 17 := by
  rw [response, List.length_append, layout_length, List.length_take]
  omega

theorem requests_long {passes : Nat} {incoming q : Bytes} (inside : q ∈ requests passes incoming) : 4 < q.length := by
  simpa using List.mem_takeWhile_imp inside

theorem answers_carried {turns : List Turn} (bounded : ∀ turn ∈ turns, turn.Bounded) (incoming : Bytes) :
    Carried defaultMaxFrameSize (answers turns incoming) := by
  intro p inside
  obtain ⟨i, here⟩ := List.mem_iff_getElem?.mp inside
  rw [answers, List.getElem?_zipWith] at here
  cases first : turns[i]? with
  | none => simp [first] at here
  | some turn =>
    cases second : (requests turns.length incoming)[i]? with
    | none => simp [first, second] at here
    | some q =>
      simp only [first, second, Option.some.injEq] at here
      have long := requests_long (List.mem_of_getElem? second)
      have fits := reply_fits (bounded turn (List.mem_of_getElem? first)) (q.drop 4)
      have size : p.length ≤ defaultMaxFrameSize := by
        rw [← here, response_length long]
        exact fits.small
      refine ⟨size, ?_⟩
      rw [defaultMaxFrameSize] at size
      omega

/-! ### One write -/

namespace Conn

variable {t : Conn} {resp : Response} {fails : Option Nat}

def frameOf (id : Nat) (resp : Response) : Bytes := frames [le 4 id ++ layout resp]

theorem writeResponse_send (fits : Fits resp) (whole : t.broken = false) : t.writeResponse resp fails =
    match fails with
    | none => ({ t with outgoing := t.outgoing ++ frameOf t.lastRecvId resp, lastRecvId := 0 }, true)
    | some cut =>
      ({ t with outgoing := t.outgoing ++ (frameOf t.lastRecvId resp).take cut, lastRecvId := 0, broken := true },
        false) := by
  have encoded : encodeResponse resp = some (.ok (layout resp)) := encodeResponse_ok.mpr ⟨fits.admitted, rfl⟩
  have small : (le 4 t.lastRecvId ++ layout resp).length < 2 ^ 32 := by
    have bound := fits.small
    rw [List.length_append, le_length, layout_length]
    rw [defaultMaxFrameSize] at bound
    omega
  have sent : t.writeResponse resp fails =
      ({ t with lastRecvId := 0 } : Conn).write (le 4 t.lastRecvId ++ layout resp) fails := by
    simp only [writeResponse, encoded]
    exact if_neg (by simp [layout])
  have one : frameOf t.lastRecvId resp =
      le 4 (le 4 t.lastRecvId ++ layout resp).length ++ (le 4 t.lastRecvId ++ layout resp) := by
    simp [frameOf, frames]
  rw [sent, write, writeFrame_eq small, one]
  simp only [whole, Bool.false_eq_true, if_false]

theorem writeResponse_whole (fits : Fits resp) (whole : t.broken = false) : t.writeResponse resp none =
    ({ t with outgoing := t.outgoing ++ frameOf t.lastRecvId resp, lastRecvId := 0 }, true) :=
  writeResponse_send fits whole

theorem writeResponse_torn (fits : Fits resp) (whole : t.broken = false) (cut : Nat) :
    t.writeResponse resp (some cut) =
      ({ t with outgoing := t.outgoing ++ (frameOf t.lastRecvId resp).take cut, lastRecvId := 0, broken := true },
        false) :=
  writeResponse_send fits whole

theorem writeResponse_broken (broken : t.broken = true) :
    (t.writeResponse resp fails).1.outgoing = t.outgoing ∧ (t.writeResponse resp fails).2 = false := by
  unfold writeResponse
  split
  · unfold send
    split
    · exact ⟨rfl, rfl⟩
    · unfold write
      split
      · exact ⟨rfl, rfl⟩
      · rw [if_pos broken]
        exact ⟨rfl, rfl⟩
  · exact ⟨rfl, rfl⟩

/-! ### One pass -/

/-- What a pass may do to a connection on which the frame `answer` is due. -/
inductive Passed (turn : Turn) (t : Conn) (rest answer : Bytes) : Conn × Bool → Prop
  | answered : Passed turn t rest answer
      ({ incoming := rest, outgoing := t.outgoing ++ answer, lastRecvId := 0, broken := false }, true)
  | ended (t' : Conn) (cut : Nat) (out : t'.outgoing = t.outgoing ++ answer.take cut)
      (fault : turn.smooth = false) : Passed turn t rest answer (t', false)

def asked (t : Conn) (rest : Bytes) (id : Nat) : Conn := { t with incoming := rest, lastRecvId := id }

section

variable {turn : Turn} {rest : Bytes} {id : Nat} (whole : t.broken = false)

include whole

theorem asked_whole (fits : Fits resp) : (t.asked rest id).writeResponse resp none =
    ({ incoming := rest, outgoing := t.outgoing ++ frameOf id resp, lastRecvId := 0, broken := false }, true) := by
  rw [writeResponse_whole fits (show (t.asked rest id).broken = false from whole), asked, whole]

theorem loop_passed (fits : Fits resp) :
    Passed turn t rest (frameOf id resp) ((t.asked rest id).writeResponse resp turn.loopFails) := by
  cases fails : turn.loopFails with
  | none =>
    rw [asked_whole whole fits]
    exact .answered
  | some cut =>
    rw [writeResponse_torn fits (show (t.asked rest id).broken = false from whole)]
    exact .ended _ cut rfl (by simp [Turn.smooth, fails])

/-- The write of a handler. If it fails, the loop has nothing more to write on. -/
theorem handled_passed (fits : Fits resp) : Passed turn t rest (frameOf id resp)
    (if ((t.asked rest id).writeResponse resp turn.handlerFails).2 then
      (((t.asked rest id).writeResponse resp turn.handlerFails).1, true)
    else ((t.asked rest id).writeResponse resp turn.handlerFails).1.writeResponse { status := statusError }
      turn.loopFails) := by
  cases fails : turn.handlerFails with
  | none =>
    rw [asked_whole whole fits, if_pos rfl]
    exact .answered
  | some cut =>
    rw [writeResponse_torn fits (show (t.asked rest id).broken = false from whole), if_neg (by simp)]
    generalize torn : ({ (t.asked rest id) with outgoing := _, lastRecvId := 0, broken := true } : Conn) = t'
    have broken : t'.broken = true := by rw [← torn]
    obtain ⟨out, done⟩ : (t'.writeResponse { status := statusError } turn.loopFails).1.outgoing = t'.outgoing ∧
        (t'.writeResponse { status := statusError } turn.loopFails).2 = false := writeResponse_broken broken
    cases result : t'.writeResponse { status := statusError } turn.loopFails with
    | mk t'' ok =>
      rw [result] at out done
      obtain rfl : ok = false := done
      exact .ended t'' cut (out.trans (congrArg Conn.outgoing torn).symm) (by simp [Turn.smooth, fails])

end

theorem le_take {q : Bytes} (long : 4 < q.length) : le 4 (ofLE (q.take 4)) = q.take 4 := by
  have width : (q.take 4).length = 4 := by
    rw [List.length_take]
    omega
  have back := le_ofLE (q.take 4)
  rwa [width] at back

theorem frameOf_reply {turn : Turn} {q : Bytes} (long : 4 < q.length) :
    frameOf (ofLE (q.take 4)) (reply turn (q.drop 4)) = frames [response turn q] := by
  rw [frameOf, le_take long, response]

theorem handler_passed {turn : Turn} {req : Request} {rest payload : Bytes} {id : Nat}
    {handler : Turn → Conn → Request → Conn × Bool} (whole : t.broken = false) (bounded : turn.Bounded)
    (decoded : decodeRequest payload = some req) (known : requestHandlers req.cmd = some handler) :
    Passed turn t rest (frameOf id (reply turn payload))
      (if (handler turn (t.asked rest id) req).2 then ((handler turn (t.asked rest id) req).1, true)
      else (handler turn (t.asked rest id) req).1.writeResponse { status := statusError } turn.loopFails) := by
  have fits := reply_fits bounded payload
  unfold requestHandlers at known
  by_cases get : req.cmd = cmdGet
  · rw [if_pos get] at known
    obtain rfl := Option.some.inj known
    have written : handleGet turn (t.asked rest id) req =
        (t.asked rest id).writeResponse (reply turn payload) turn.handlerFails := by
      unfold handleGet reply responseWithStatus
      simp only [decoded, get, if_true]
      cases turn.proposeRead with
      | deadlineExceeded | failed => rfl
      | ok => cases turn.sm req.key <;> rfl
    rw [written]
    exact handled_passed whole fits
  · rw [if_neg get] at known
    by_cases isPut : req.cmd = cmdPut
    · rw [if_pos isPut] at known
      obtain rfl := Option.some.inj known
      by_cases proposed : turn.proposePut = true
      · have written : handlePut turn (t.asked rest id) req =
            (t.asked rest id).writeResponse (reply turn payload) turn.handlerFails := by
          unfold handlePut reply responseWithStatus
          simp [decoded, isPut, cmdPut_ne_cmdGet, proposed]
        rw [written]
        exact handled_passed whole fits
      · have refused : reply turn payload = { status := statusError } := by
          unfold reply
          simp [decoded, get, proposed]
        have nothing : handlePut turn (t.asked rest id) req = (t.asked rest id, false) := if_neg proposed
        rw [nothing, refused]
        exact loop_passed whole fits_error
    · rw [if_neg isPut] at known
      cases known

theorem pass_received {turn : Turn} {rest q : Bytes} (whole : t.broken = false) (bounded : turn.Bounded)
    (long : 4 < q.length) (read : readFrameMax t.incoming defaultMaxFrameSize = .ok (q, rest)) :
    Passed turn t rest (frames [response turn q]) (t.pass turn) := by
  have received : t.receive = some (t.asked rest (ofLE (q.take 4)), q.drop 4) := by
    simp only [receive, read]
    exact if_neg (by omega)
  rw [← frameOf_reply long]
  unfold pass
  by_cases late : turn.expired = true
  · rw [if_pos late]
    exact .ended t 0 (by simp) (by simp [Turn.smooth, late])
  rw [if_neg late]
  simp only [received, decodeRequest_eq]
  cases decoded : decodeRequest (q.drop 4) with
  | none =>
    have refused : reply turn (q.drop 4) = { status := statusError } := by
      unfold reply
      simp [decoded]
    rw [refused]
    exact loop_passed whole fits_error
  | some req =>
    simp only [Option.elim_some]
    cases known : requestHandlers req.cmd with
    | none =>
      have refused : reply turn (q.drop 4) = { status := statusError } := by
        unfold requestHandlers at known
        unfold reply
        by_cases get : req.cmd = cmdGet
        · simp [get] at known
        · by_cases isPut : req.cmd = cmdPut
          · simp [isPut, cmdPut_ne_cmdGet] at known
          · simp [decoded, get, isPut]
      rw [refused]
      exact loop_passed whole fits_error
    | some handler => exact handler_passed whole bounded decoded known

theorem pass_nothing {turn : Turn} (nothing : t.receive = none) : t.pass turn = (t, false) := by
  unfold pass
  split
  · rfl
  · rw [nothing]

end Conn

/-! ### The connection -/

theorem requests_received {passes : Nat} {incoming rest q : Bytes}
    (read : readFrameMax incoming defaultMaxFrameSize = .ok (q, rest)) :
    requests (passes + 1) incoming = if 4 < q.length then q :: requests passes rest else [] := by
  unfold requests
  rw [readStream, read]
  by_cases long : 4 < q.length
  · rw [if_pos long, List.takeWhile_cons_of_pos (by simpa using long)]
  · rw [if_neg long, List.takeWhile_cons_of_neg (by simpa using long)]

theorem requests_error {passes : Nat} {incoming : Bytes} {e : FrameError}
    (read : readFrameMax incoming defaultMaxFrameSize = .error e) : requests (passes + 1) incoming = [] := by
  unfold requests
  rw [readStream, read]
  rfl

namespace Conn

variable {t : Conn} {turns : List Turn}

/-- How a pass finds the stream. -/
theorem receive_cases (t : Conn) :
    (∃ q rest, 4 < q.length ∧ readFrameMax t.incoming defaultMaxFrameSize = .ok (q, rest) ∧
      ∀ passes, requests (passes + 1) t.incoming = q :: requests passes rest) ∨
    (t.receive = none ∧ ∀ passes, requests (passes + 1) t.incoming = []) := by
  cases read : readFrameMax t.incoming defaultMaxFrameSize with
  | error e =>
    refine .inr ⟨?_, fun passes => requests_error read⟩
    simp only [receive, read]
  | ok got =>
    obtain ⟨q, rest⟩ := got
    by_cases long : 4 < q.length
    · exact .inl ⟨q, rest, long, rfl, fun passes => by rw [requests_received read, if_pos long]⟩
    · refine .inr ⟨?_, fun passes => by rw [requests_received read, if_neg long]⟩
      simp only [receive, read]
      exact if_pos (by omega)

/-- What the loop has written is the beginning of the stream of its answers, and all of it if nothing fails. -/
theorem handleRequest_outgoing (whole : t.broken = false) (bounded : ∀ turn ∈ turns, turn.Bounded) :
    ∃ n, (t.handleRequest turns).1.outgoing = t.outgoing ++ (frames (answers turns t.incoming)).take n ∧
      ((∀ turn ∈ turns, turn.smooth = true) → (frames (answers turns t.incoming)).length ≤ n) := by
  induction turns generalizing t with
  | nil => exact ⟨0, by simp [handleRequest, answers, frames]⟩
  | cons turn turns ih =>
    rcases t.receive_cases with ⟨q, rest, long, read, next⟩ | ⟨nothing, empty⟩
    · have passed := pass_received whole (bounded turn (by simp)) long read
      have due : frames (answers (turn :: turns) t.incoming) =
          frames [response turn q] ++ frames (answers turns rest) := by
        rw [answers, List.length_cons, next, List.zipWith_cons_cons, frames_cons]
        simp [frames, answers]
      rw [handleRequest, due]
      generalize t.pass turn = result at passed
      cases passed with
      | answered =>
        obtain ⟨n, out, all⟩ := ih (t := ⟨rest, t.outgoing ++ frames [response turn q], 0, false⟩) rfl
          (fun later inside => bounded later (by simp [inside]))
        refine ⟨(frames [response turn q]).length + n, ?_, fun goes => ?_⟩
        · rw [if_pos rfl, out, List.take_length_add_append, List.append_assoc]
        · have rest := all fun later inside => goes later (by simp [inside])
          rw [List.length_append]
          exact Nat.add_le_add_left rest _
      | ended t' cut out fault =>
        refine ⟨min cut (frames [response turn q]).length, ?_, fun goes => ?_⟩
        · rw [if_neg (by simp), out, List.take_append_of_le_length (Nat.min_le_right _ _), ← List.take_eq_take_min]
        · rw [goes turn (by simp)] at fault
          cases fault
    · refine ⟨0, ?_, fun _ => ?_⟩
      · rw [handleRequest, pass_nothing nothing]
        simp
      · rw [answers, List.length_cons, empty]
        simp [frames]

end Conn

/-- Whatever bytes arrive on a connection and whatever its passes meet, the client reads the first of the
answers, each under the number of its request and in the order of the requests, and all of them if nothing
fails. -/
theorem responses_follow_requests (incoming : Bytes) (turns : List Turn) (bounded : ∀ turn ∈ turns, turn.Bounded)
    (calls : Nat) (enough : (answers turns incoming).length < calls) :
    ∃ m e, m ≤ (answers turns incoming).length ∧
      readStream defaultMaxFrameSize calls (Conn.handleRequest { incoming } turns).1.outgoing =
        ((answers turns incoming).take m, some e) ∧
      ((∀ turn ∈ turns, turn.smooth = true) → m = (answers turns incoming).length) := by
  have positive : 0 < defaultMaxFrameSize := by decide
  have carried := answers_carried bounded incoming
  obtain ⟨n, out, all⟩ := Conn.handleRequest_outgoing (t := { incoming }) rfl bounded
  rw [List.nil_append] at out
  by_cases whole : (frames (answers turns incoming)).length ≤ n
  · refine ⟨_, .eof, le_rfl, ?_, fun _ => rfl⟩
    rw [out, List.take_of_length_le whole, List.take_length]
    exact readStream_frames positive carried enough
  · obtain ⟨m, e, bound, _, _, reads⟩ := readStream_cut positive carried n enough
    refine ⟨m, e, bound, ?_, fun goes => absurd (all goes) whole⟩
    rw [out]
    exact reads

/-- A read of a missing key, a put that is refused and bytes that are no request, under the numbers 7, 8 and 9. -/
theorem three_requests_answered : ∃ m e,
    readStream defaultMaxFrameSize 4 (Conn.handleRequest
      { incoming := frames [le 4 7 ++ (encodeRequest ⟨cmdGet, [107], [], 0⟩).getD [],
          le 4 8 ++ (encodeRequest ⟨cmdPut, [107], [1], 0⟩).getD [], le 4 9 ++ [1, 2]] }
      [{}, { proposePut := false }, {}]).1.outgoing =
      (([le 4 7 ++ layout { status := statusNotFound }, le 4 8 ++ layout { status := statusError },
        le 4 9 ++ layout { status := statusError }] : List Bytes).take m, some e) ∧ m = 3 := by
  have due : answers [{}, { proposePut := false }, {}]
      (frames [le 4 7 ++ (encodeRequest ⟨cmdGet, [107], [], 0⟩).getD [],
        le 4 8 ++ (encodeRequest ⟨cmdPut, [107], [1], 0⟩).getD [], le 4 9 ++ [1, 2]]) =
      [le 4 7 ++ layout { status := statusNotFound }, le 4 8 ++ layout { status := statusError },
        le 4 9 ++ layout { status := statusError }] := by decide +kernel
  have bounded : ∀ turn ∈ ([{}, { proposePut := false }, {}] : List Turn), turn.Bounded := by
    simp [Turn.Bounded]
  obtain ⟨m, e, -, reads, all⟩ := responses_follow_requests _ _ bounded 4 (by rw [due]; decide)
  rw [due] at reads all
  exact ⟨m, e, reads, all (by decide)⟩

end Server

end Kvgo

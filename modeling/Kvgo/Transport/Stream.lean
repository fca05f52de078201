import Kvgo.Transport.Frame

/-! A connection that carries frame after frame. The bytes arrive in chunks of any size, and may end
anywhere. -/

namespace Kvgo

open Words

namespace Transport

/-- The loop of `io.ReadAtLeast` into a buffer of `size` bytes: each `Read` copies what fits of the next
chunk. -/
def readAtLeast (size : Nat) : List Bytes → Bytes → Except FrameError (Bytes × List Bytes)
  | [], buf =>
    if buf.length < size then (if buf = [] then .error .eof else .error .unexpectedEOF) else .ok (buf, [])
  | chunk :: rest, buf =>
    if buf.length < size then
      if chunk.length ≤ size - buf.length then readAtLeast size rest (buf ++ chunk)
      else .ok (buf ++ chunk.take (size - buf.length), chunk.drop (size - buf.length) :: rest)
    else .ok (buf, chunk :: rest)

/-- `readFrameMax` on a connection that delivers these chunks and then ends. -/
def readFrameChunks (chunks : List Bytes) (maxPayload : Nat) : Except FrameError (Bytes × List Bytes) :=
  if maxPayload = 0 then .error .invalidFrame
  else do
    let (hdr, chunks) ← readAtLeast 4 chunks []
    let ln := ofLE hdr
    if maxPayload < ln then .error .frameTooLarge
    else if ln = 0 then .ok ([], chunks)
    else readAtLeast ln chunks []

/-- Frame after frame until the first error: the payloads and the error, which is `none` only if the
calls run out. -/
def readFrames (maxPayload : Nat) : Nat → List Bytes → List Bytes × Option FrameError
  | 0, _ => ([], none)
  | calls + 1, chunks =>
    match readFrameChunks chunks maxPayload with
    | .error e => ([], some e)
    | .ok (payload, chunks) =>
      let (payloads, e) := readFrames maxPayload calls chunks
      (payload :: payloads, e)

/-- One `writeFrame` after the other. -/
def writeFrames : List Bytes → Except FrameError Bytes
  | [] => .ok []
  | payload :: rest => do
    let frame ← writeFrame payload
    let frames ← writeFrames rest
    .ok (frame ++ frames)

def frames (payloads : List Bytes) : Bytes := (payloads.map fun p => le 4 p.length ++ p).flatten

/-! ### Chunks -/

/-- How the connection is cut into chunks does not matter. -/
theorem readAtLeast_flatten {size : Nat} (chunks : List Bytes) {buf : Bytes} (fits : buf.length ≤ size) :
    (readAtLeast size chunks buf).map (fun got => (got.1, got.2.flatten)) =
      readFull (buf ++ chunks.flatten) size := by
  induction chunks generalizing buf with
  | nil =>
    rw [readAtLeast, readFull, List.flatten_nil, List.append_nil]
    by_cases short : buf.length < size
    · rw [if_pos short, if_neg (show ¬size ≤ buf.length by omega)]
      split <;> rfl
    · rw [if_neg short, if_pos (show size ≤ buf.length by omega), List.take_of_length_le fits, List.drop_eq_nil_of_le fits]
      rfl
  | cons chunk rest ih =>
    rw [readAtLeast, List.flatten_cons]
    by_cases short : buf.length < size
    · rw [if_pos short]
      by_cases whole : chunk.length ≤ size - buf.length
      · rw [if_pos whole, ih (by rw [List.length_append]; omega), List.append_assoc]
      · rw [if_neg whole, readFull, if_pos (by simp only [List.length_append]; omega)]
        have front : (buf ++ (chunk ++ rest.flatten)).take size = buf ++ chunk.take (size - buf.length) := by
          rw [List.take_append, List.take_of_length_le fits, List.take_append_of_le_length (by omega)]
        have back : (buf ++ (chunk ++ rest.flatten)).drop size =
            chunk.drop (size - buf.length) ++ rest.flatten := by
          rw [List.drop_append, List.drop_eq_nil_of_le fits, List.nil_append,
            List.drop_append_of_le_length (by omega)]
        rw [front, back]
        rfl
    · have full : size = buf.length := by omega
      rw [if_neg short, full, readFull_append]
      rfl

theorem readFrameChunks_flatten (chunks : List Bytes) (maxPayload : Nat) :
    (readFrameChunks chunks maxPayload).map (fun got => (got.1, got.2.flatten)) =
      readFrameMax chunks.flatten maxPayload := by
  unfold readFrameChunks readFrameMax
  by_cases zero : maxPayload = 0
  · rw [if_pos zero, if_pos zero]
    rfl
  · rw [if_neg zero, if_neg zero]
    have full (size : Nat) (chunks : List Bytes) :
        (readAtLeast size chunks []).map (fun got => (got.1, got.2.flatten)) = readFull chunks.flatten size :=
      readAtLeast_flatten chunks (Nat.zero_le size)
    rw [← full 4 chunks]
    cases readAtLeast 4 chunks [] with
    | error e => rfl
    | ok got =>
      obtain ⟨hdr, later⟩ := got
      show Except.map _ (if maxPayload < ofLE hdr then _ else _) = if maxPayload < ofLE hdr then _ else _
      by_cases large : maxPayload < ofLE hdr
      · rw [if_pos large, if_pos large]
        rfl
      · rw [if_neg large, if_neg large, ← full]
        split <;> rfl

def readStream (maxPayload : Nat) : Nat → Bytes → List Bytes × Option FrameError
  | 0, _ => ([], none)
  | calls + 1, stream =>
    match readFrameMax stream maxPayload with
    | .error e => ([], some e)
    | .ok (payload, stream) =>
      let (payloads, e) := readStream maxPayload calls stream
      (payload :: payloads, e)

theorem readFrames_flatten (maxPayload calls : Nat) (chunks : List Bytes) :
    readFrames maxPayload calls chunks = readStream maxPayload calls chunks.flatten := by
  induction calls generalizing chunks with
  | zero => rfl
  | succ calls ih =>
    rw [readFrames, readStream, ← readFrameChunks_flatten]
    cases readFrameChunks chunks maxPayload with
    | error e => rfl
    | ok got =>
      obtain ⟨payload, later⟩ := got
      simp only [Except.map, ih]

/-! ### Bytes -/

theorem frames_cons (p : Bytes) (ps : List Bytes) : frames (p :: ps) = le 4 p.length ++ p ++ frames ps := by
  simp [frames]

def Carried (maxPayload : Nat) (payloads : List Bytes) : Prop :=
  ∀ p ∈ payloads, p.length ≤ maxPayload ∧ p.length < 2 ^ 32

theorem writeFrame_eq {p : Bytes} (small : p.length < 2 ^ 32) : writeFrame p = .ok (le 4 p.length ++ p) :=
  if_neg (by omega)

theorem writeFrames_eq {maxPayload : Nat} {payloads : List Bytes} (carried : Carried maxPayload payloads) :
    writeFrames payloads = .ok (frames payloads) := by
  induction payloads with
  | nil => rfl
  | cons p ps ih =>
    rw [writeFrames, writeFrame_eq (carried p (by simp)).2, ih (fun q inside => carried q (by simp [inside])),
      frames_cons]
    rfl

section

variable {maxPayload : Nat} {p : Bytes}

theorem readFrameMax_frame (positive : 0 < maxPayload) (low : p.length ≤ maxPayload) (small : p.length < 2 ^ 32)
    (rest : Bytes) : readFrameMax (le 4 p.length ++ p ++ rest) maxPayload = .ok (p, rest) := by
  rw [readFrameMax_writeFrame (writeFrame_eq small) rest positive, if_neg (by omega)]

theorem readFull_short {stream : Bytes} {n : Nat} (short : stream.length < n) : ∃ e, readFull stream n = .error e := by
  rw [readFull, if_neg (by omega)]
  split
  · exact ⟨_, rfl⟩
  · exact ⟨_, rfl⟩

/-- A frame that is cut anywhere is an error. -/
theorem readFrameMax_torn (positive : 0 < maxPayload) (low : p.length ≤ maxPayload) (small : p.length < 2 ^ 32)
    {k : Nat} (torn : k < 4 + p.length) :
    ∃ e, readFrameMax ((le 4 p.length ++ p).take k) maxPayload = .error e := by
  have header : (le 4 p.length).length = 4 := by simp
  rw [readFrameMax, if_neg (by omega)]
  rcases Nat.lt_or_ge k 4 with early | late
  · obtain ⟨e, failed⟩ : ∃ e, readFull ((le 4 p.length ++ p).take k) 4 = .error e :=
      readFull_short (by rw [List.length_take]; omega)
    exact ⟨e, by rw [failed]; rfl⟩
  · -- the header is there, so the announced payload is not empty and some of it is missing
    have cut : (le 4 p.length ++ p).take k = le 4 p.length ++ p.take (k - 4) := by
      rw [List.take_append, header, List.take_of_length_le (by omega)]
    have announced : ofLE (le 4 p.length) = p.length := ofLE_le 4 _ (by norm_num; omega)
    have first : readFull (le 4 p.length ++ p.take (k - 4)) 4 = .ok (le 4 p.length, p.take (k - 4)) := by
      have := readFull_append (le 4 p.length) (p.take (k - 4))
      rwa [header] at this
    obtain ⟨e, failed⟩ : ∃ e, readFull (p.take (k - 4)) p.length = .error e :=
      readFull_short (by rw [List.length_take]; omega)
    refine ⟨e, ?_⟩
    rw [cut, first]
    simp only [bind, Except.bind, announced]
    rw [if_neg (by omega), if_neg (by omega), failed]

end

theorem readFrameMax_nil {maxPayload : Nat} (positive : 0 < maxPayload) : readFrameMax [] maxPayload = .error .eof := by
  rw [readFrameMax, if_neg (by omega)]
  rfl

theorem frames_length_cons (p : Bytes) (ps : List Bytes) :
    (frames (p :: ps)).length = 4 + p.length + (frames ps).length := by
  simp [frames_cons, Nat.add_assoc]

section

variable {maxPayload : Nat} {payloads : List Bytes}

theorem readStream_frame (positive : 0 < maxPayload) {p : Bytes} (low : p.length ≤ maxPayload)
    (small : p.length < 2 ^ 32) (calls : Nat) (rest : Bytes) :
    readStream maxPayload (calls + 1) (le 4 p.length ++ p ++ rest) =
      (p :: (readStream maxPayload calls rest).1, (readStream maxPayload calls rest).2) := by
  rw [readStream, readFrameMax_frame positive low small]

theorem readStream_frames (positive : 0 < maxPayload) (carried : Carried maxPayload payloads) {calls : Nat}
    (enough : payloads.length < calls) :
    readStream maxPayload calls (frames payloads) = (payloads, some .eof) := by
  induction payloads generalizing calls with
  | nil =>
    obtain ⟨calls, rfl⟩ := Nat.exists_eq_succ_of_ne_zero (Nat.ne_zero_of_lt enough)
    show readStream maxPayload (calls + 1) [] = _
    rw [readStream, readFrameMax_nil positive]
  | cons p ps ih =>
    obtain ⟨calls, rfl⟩ := Nat.exists_eq_succ_of_ne_zero (Nat.ne_zero_of_lt enough)
    obtain ⟨low, small⟩ := carried p (by simp)
    rw [frames_cons, readStream_frame positive low small,
      ih (fun q inside => carried q (by simp [inside])) (by simpa using enough)]

/-- What comes off a stream that was cut after `k` bytes: the payloads of the complete frames, then an
error. -/
theorem readStream_cut (positive : 0 < maxPayload) (carried : Carried maxPayload payloads) (k : Nat)
    {calls : Nat} (enough : payloads.length < calls) :
    ∃ m e, m ≤ payloads.length ∧ (frames (payloads.take m)).length ≤ k ∧
      (m < payloads.length → k < (frames (payloads.take (m + 1))).length) ∧
      readStream maxPayload calls ((frames payloads).take k) = (payloads.take m, some e) := by
  induction payloads generalizing k calls with
  | nil =>
    have all := readStream_frames positive carried enough
    exact ⟨0, .eof, le_rfl, Nat.zero_le k, by simp, by rwa [show (frames []).take k = frames [] from List.take_nil]⟩
  | cons p ps ih =>
    obtain ⟨calls, rfl⟩ := Nat.exists_eq_succ_of_ne_zero (Nat.ne_zero_of_lt enough)
    obtain ⟨low, small⟩ := carried p (by simp)
    have size : (le 4 p.length ++ p).length = 4 + p.length := by simp
    rw [frames_cons]
    rcases Nat.lt_or_ge k (4 + p.length) with torn | whole
    · obtain ⟨e, failed⟩ := readFrameMax_torn positive low small torn
      refine ⟨0, e, Nat.zero_le _, Nat.zero_le k, fun _ => ?_, ?_⟩
      · rw [List.take_succ_cons, List.take_zero, frames_length_cons]
        exact torn
      · rw [List.take_append_of_le_length (by omega), readStream, failed]
        rfl
    · obtain ⟨m, e, bound, inside, next, reads⟩ := ih (fun q inside => carried q (by simp [inside]))
        (k - (4 + p.length)) (show ps.length < calls by simpa using enough)
      refine ⟨m + 1, e, by simpa using bound, ?_, fun more => ?_, ?_⟩
      · rw [List.take_succ_cons, frames_length_cons]
        omega
      · have ahead := next (by simpa using more)
        rw [List.take_succ_cons, frames_length_cons]
        omega
      · rw [List.take_append, List.take_of_length_le (by omega), size, readStream_frame positive low small,
          reads, List.take_succ_cons]

end

/-- With a positive limit, and payloads that neither it nor the header refuses, the frames come back as
they were written. -/
theorem frame_stream_round_trip (maxPayload : Nat) (positive : 0 < maxPayload) (payloads : List Bytes)
    (carried : Carried maxPayload payloads) :
    ∃ stream, writeFrames payloads = .ok stream ∧ ∀ calls, payloads.length < calls →
      (∀ chunks : List Bytes, chunks.flatten = stream →
        readFrames maxPayload calls chunks = (payloads, some .eof)) ∧
      ∀ k, ∀ chunks : List Bytes, chunks.flatten = stream.take k →
        ∃ m e, m ≤ payloads.length ∧ (frames (payloads.take m)).length ≤ k ∧
          (m < payloads.length → k < (frames (payloads.take (m + 1))).length) ∧
          readFrames maxPayload calls chunks = (payloads.take m, some e) := by
  refine ⟨frames payloads, writeFrames_eq carried, fun calls enough => ⟨fun chunks arrived => ?_,
    fun k chunks arrived => ?_⟩⟩
  · rw [readFrames_flatten, arrived]
    exact readStream_frames positive carried enough
  · rw [readFrames_flatten, arrived]
    exact readStream_cut positive carried k enough

/-- Three payloads, one of them empty, in three chunks that end inside of frames. -/
theorem three_frames_read :
    readFrames 2 4 [[2, 0, 0], [0, 1, 2, 0, 0], [0, 0, 1, 0, 0, 0, 3]] = ([[1, 2], [], [3]], some .eof) := by
  have small : Carried 2 [[1, 2], [], [3]] := by
    unfold Carried
    decide
  obtain ⟨stream, written, reads⟩ := frame_stream_round_trip 2 (by decide) [[1, 2], [], [3]] small
  obtain rfl : stream = [2, 0, 0, 0, 1, 2, 0, 0, 0, 0, 1, 0, 0, 0, 3] := by
    rw [show writeFrames [[1, 2], [], [3]] = .ok [2, 0, 0, 0, 1, 2, 0, 0, 0, 0, 1, 0, 0, 0, 3] by decide +kernel] at written
    exact (Except.ok.inj written).symm
  exact (reads 4 (by decide)).1 _ (by decide)

/-- A limit of zero refuses even the empty payload, and the end of the stream. -/
theorem zero_limit_refuses :
    writeFrames [[]] = .ok [0, 0, 0, 0] ∧ (∀ p ∈ [([] : Bytes)], p.length ≤ 0) ∧
      readFrames 0 2 [[0, 0, 0, 0]] = ([], some .invalidFrame) ∧ readFrames 0 1 [] = ([], some .invalidFrame) := by
  decide +kernel

end Transport

end Kvgo

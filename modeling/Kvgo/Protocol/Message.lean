import Kvgo.Lib.Slices
import Kvgo.Server.Envelope

/-! Requests and responses as byte strings (`protocol/message.go`), with every index and slice of the
source checked against its buffer: an outer `none` is a panic, an inner error is a returned one. -/

namespace Kvgo

open Words Slices

namespace Protocol

open Server (Request cmdPut flagHasSeq requestHeaderSize)

inductive MessageError where
  | invalidMessage
  | unknownStatus
  | frameTooLarge
  deriving DecidableEq, Repr

def requestCmdOff : Nat := 0
def requestFlagsOff : Nat := 1
def requestSeqOff : Nat := 2
def requestRidLenOff : Nat := 10
def requestKLenOff : Nat := 14
def requestVLenOff : Nat := 18
def requestDataOff : Nat := 22

def responseHeaderSize : Nat := 13
def responseStatusOff : Nat := 0
def responseSeqOff : Nat := 1
def responseVLenOff : Nat := 9
def responseValueOff : Nat := 13

def statusOK : UInt8 := 0
def statusNotFound : UInt8 := 1
def statusError : UInt8 := 2
def statusTimeout : UInt8 := 3

def statusMaxKnown : UInt8 := 4

structure Response where
  status : UInt8
  value : Bytes := []
  seq : Nat := 0
  deriving DecidableEq, Repr

def lenFromU32 (u : Nat) : Option Nat := if 2 ^ 63 - 1 < u then none else some u

def statusCanCarryValue (st : UInt8) : Bool := st == statusOK

def encodeRequest (req : Request) : Option (Except MessageError Bytes) :=
  let klen := req.key.length
  let vlen := req.value.length
  if 2 ^ 32 - 1 < klen then some (.error .frameTooLarge)
  else if 2 ^ 32 - 1 < vlen then some (.error .frameTooLarge)
  else do
    let flags : UInt8 := if req.cmd = cmdPut then flagHasSeq else 0
    let buf ← put (List.replicate (requestHeaderSize + klen + vlen) 0) requestCmdOff [req.cmd]
    let buf ← put buf requestFlagsOff [flags]
    let buf ← put buf requestSeqOff (le 8 req.seq)
    let buf ← put buf requestRidLenOff (le 4 0)
    let buf ← put buf requestKLenOff (le 4 klen)
    let buf ← put buf requestVLenOff (le 4 vlen)
    let buf ← copy buf requestDataOff req.key
    let buf ← copy buf (requestDataOff + klen) req.value
    some (.ok buf)

def decodeRequest (payload : Bytes) : Option (Except MessageError Request) :=
  if payload.length < requestHeaderSize then some (.error .invalidMessage)
  else do
    let cmd ← payload[requestCmdOff]?
    let flags ← payload[requestFlagsOff]?
    let seq ← uint payload requestSeqOff 8
    let ridU32 ← uint payload requestRidLenOff 4
    let kU32 ← uint payload requestKLenOff 4
    let vU32 ← uint payload requestVLenOff 4
    match lenFromU32 ridU32, lenFromU32 kU32, lenFromU32 vU32 with
    | some ridlen, some klen, some vlen =>
      if payload.length ≠ requestHeaderSize + ridlen + klen + vlen then some (.error .invalidMessage)
      else do
        let off := requestDataOff + ridlen
        let key ← slice payload off (off + klen)
        let val ← slice payload (off + klen) (off + klen + vlen)
        some (.ok { cmd, key, value := val, seq := if flags &&& flagHasSeq ≠ 0 then seq else 0 })
    | _, _, _ => some (.error .invalidMessage)

def encodeResponse (resp : Response) : Option (Except MessageError Bytes) :=
  let vlen := resp.value.length
  if 2 ^ 32 - 1 < vlen then some (.error .frameTooLarge)
  else if statusMaxKnown < resp.status then some (.error .unknownStatus)
  else if statusCanCarryValue resp.status = false ∧ vlen ≠ 0 then some (.error .invalidMessage)
  else do
    let buf ← put (List.replicate (responseHeaderSize + vlen) 0) responseStatusOff [resp.status]
    let buf ← put buf responseSeqOff (le 8 resp.seq)
    let buf ← put buf responseVLenOff (le 4 vlen)
    let buf ← copy buf responseValueOff resp.value
    some (.ok buf)

def decodeResponse (payload : Bytes) : Option (Except MessageError Response) :=
  if payload.length < responseHeaderSize then some (.error .invalidMessage)
  else do
    let st ← payload[responseStatusOff]?
    let seq ← uint payload responseSeqOff 8
    let vU32 ← uint payload responseVLenOff 4
    match lenFromU32 vU32 with
    | none => some (.error .invalidMessage)
    | some vlen =>
      if payload.length ≠ responseHeaderSize + vlen then some (.error .invalidMessage)
      else if statusMaxKnown < st then some (.error .unknownStatus)
      else if statusCanCarryValue st = false ∧ vlen ≠ 0 then some (.error .invalidMessage)
      else do
        let val ← slice payload responseValueOff (responseHeaderSize + vlen)
        some (.ok { status := st, value := val, seq })

/-- Every write of `EncodeRequest` lies inside its buffer and together they fill it. -/
theorem encodeRequest_eq (req : Request) :
    encodeRequest req = some ((Server.encodeRequest req).elim (.error .frameTooLarge) .ok) := by
  simp only [encodeRequest, Server.encodeRequest]
  by_cases longKey : 2 ^ 32 - 1 < req.key.length
  · rw [if_pos longKey, if_pos longKey, Option.elim_none]
  by_cases longValue : 2 ^ 32 - 1 < req.value.length
  · rw [if_neg longKey, if_neg longKey, if_pos longValue, if_pos longValue, Option.elim_none]
  rw [if_neg longKey, if_neg longKey, if_neg longValue, if_neg longValue, Option.elim_some,
    ← List.nil_append (List.replicate _ _)]
  -- each write starts where the one before it ended
  simp (disch := grind [requestHeaderSize, requestCmdOff, requestFlagsOff, requestSeqOff, requestRidLenOff,
    requestKLenOff, requestVLenOff, requestDataOff, le_length]) only
    [put_replicate, copy_replicate, Option.bind_eq_bind, Option.bind_some]
  have full : requestHeaderSize + req.key.length + req.value.length - 1 - 1 - 8 - 4 - 4 - 4 -
    req.key.length - req.value.length = 0 := by
    rw [requestHeaderSize]
    omega
  simp [full]

def lengthAt (payload : Bytes) (off : Nat) : Nat := ofLE ((payload.drop off).take 4)

theorem lengthAt_lt (payload : Bytes) (off : Nat) : lengthAt payload off < 2 ^ 32 := by
  have small := ofLE_lt ((payload.drop off).take 4)
  have width : 256 ^ ((payload.drop off).take 4).length ≤ 256 ^ 4 :=
    Nat.pow_le_pow_right (by norm_num) (List.length_take_le _ _)
  rw [lengthAt]
  omega

theorem lenFromU32_lengthAt (payload : Bytes) (off : Nat) :
    lenFromU32 (lengthAt payload off) = some (lengthAt payload off) := by
  have small := lengthAt_lt payload off
  rw [lenFromU32, if_neg (by omega)]

theorem uint_lengthAt {payload : Bytes} {off : Nat} (inside : off + 4 ≤ payload.length) :
    uint payload off 4 = some (lengthAt payload off) := uint_of_le inside

theorem decodeRequest_short {payload : Bytes} (short : payload.length < 22) :
    decodeRequest payload = some (.error .invalidMessage) := by
  rw [decodeRequest, requestHeaderSize, if_pos short]

/-- With the header there, no index and no slice of `DecodeRequest` leaves the payload. -/
theorem decodeRequest_cons {payload rest : Bytes} {cmd flags : UInt8} (bytes : payload = cmd :: flags :: rest)
    (room : 22 ≤ payload.length) : decodeRequest payload = some
      (if payload.length ≠ 22 + lengthAt payload 10 + lengthAt payload 14 + lengthAt payload 18 then
        .error .invalidMessage
      else .ok {
        cmd
        key := (payload.drop (22 + lengthAt payload 10)).take (lengthAt payload 14)
        value := (payload.drop (22 + lengthAt payload 10 + lengthAt payload 14)).take (lengthAt payload 18)
        seq := if flags &&& flagHasSeq ≠ 0 then ofLE ((payload.drop 2).take 8) else 0 }) := by
  have first : payload[0]? = some cmd := by rw [bytes, List.getElem?_cons_zero]
  have second : payload[1]? = some flags := by rw [bytes, List.getElem?_cons_succ, List.getElem?_cons_zero]
  rw [decodeRequest, requestHeaderSize, requestCmdOff, requestFlagsOff, requestSeqOff, requestRidLenOff,
    requestKLenOff, requestVLenOff, requestDataOff, if_neg (Nat.not_lt.mpr room), first, second,
    uint_of_le (by omega), uint_lengthAt (by omega), uint_lengthAt (by omega), uint_lengthAt (by omega)]
  simp only [Option.bind_eq_bind, Option.bind_some, lenFromU32_lengthAt]
  by_cases wrong : payload.length ≠ 22 + lengthAt payload 10 + lengthAt payload 14 + lengthAt payload 18
  · rw [if_pos wrong, if_pos wrong]
  · rw [if_neg wrong, if_neg wrong, slice_of_le (by omega), slice_of_le (by omega), Option.bind_some,
      Option.bind_some]

theorem cons_of_header {payload : Bytes} (room : 22 ≤ payload.length) :
    ∃ cmd flags rest, payload = cmd :: flags :: rest := by
  match payload with
  | [] | [_] => simp at room
  | cmd :: flags :: rest => exact ⟨cmd, flags, rest, rfl⟩

/-- Without its checks `DecodeRequest` is the decoder the replicas apply entries with. -/
theorem decodeRequest_eq (payload : Bytes) : decodeRequest payload =
    some ((Server.decodeRequest payload).elim (.error .invalidMessage) .ok) := by
  by_cases short : payload.length < 22
  · have refused : Server.decodeRequest payload = none := by
      unfold Server.decodeRequest
      split
      · exact if_pos short
      · rfl
    rw [decodeRequest_short short, refused, Option.elim_none]
  · obtain ⟨cmd, flags, rest, rfl⟩ := cons_of_header (Nat.not_lt.mp short)
    have skip (n : Nat) : (cmd :: flags :: rest).drop (22 + n) = rest.drop (20 + n) := by
      rw [show 22 + n = 20 + n + 2 by omega]
      rfl
    have skipKey (n m : Nat) : (cmd :: flags :: rest).drop (22 + n + m) = rest.drop (20 + n + m) := by
      rw [Nat.add_assoc, skip, Nat.add_assoc]
    have plain : Server.decodeRequest (cmd :: flags :: rest) =
        if (cmd :: flags :: rest).length < 22 then none
        else if (cmd :: flags :: rest).length ≠ 22 + lengthAt (cmd :: flags :: rest) 10 +
          lengthAt (cmd :: flags :: rest) 14 + lengthAt (cmd :: flags :: rest) 18 then none
        else some {
          cmd
          key := (rest.drop (20 + lengthAt (cmd :: flags :: rest) 10)).take
            (lengthAt (cmd :: flags :: rest) 14)
          value := (rest.drop (20 + lengthAt (cmd :: flags :: rest) 10 +
            lengthAt (cmd :: flags :: rest) 14)).take (lengthAt (cmd :: flags :: rest) 18)
          seq := if flags &&& flagHasSeq ≠ 0 then ofLE (rest.take 8) else 0 } := rfl
    rw [decodeRequest_cons rfl (Nat.not_lt.mp short), plain, if_neg short, skip, skipKey]
    by_cases wrong : (cmd :: flags :: rest).length ≠ 22 + lengthAt (cmd :: flags :: rest) 10 +
        lengthAt (cmd :: flags :: rest) 14 + lengthAt (cmd :: flags :: rest) 18
    · rw [if_pos wrong, if_pos wrong, Option.elim_none]
    · rw [if_neg wrong, if_neg wrong, Option.elim_some]
      rfl

/-- What is accepted: the header, and behind it exactly the three parts whose lengths it gives. -/
theorem decodeRequest_accepts (payload : Bytes) : (∃ req, decodeRequest payload = some (.ok req)) ↔
    22 ≤ payload.length ∧
      payload.length = 22 + lengthAt payload 10 + lengthAt payload 14 + lengthAt payload 18 := by
  by_cases short : payload.length < 22
  · rw [decodeRequest_short short]
    simp only [Option.some.injEq, reduceCtorEq, exists_false, false_iff, not_and]
    omega
  · obtain ⟨cmd, flags, rest, bytes⟩ := cons_of_header (Nat.not_lt.mp short)
    rw [decodeRequest_cons bytes (Nat.not_lt.mp short)]
    by_cases wrong : payload.length ≠ 22 + lengthAt payload 10 + lengthAt payload 14 + lengthAt payload 18
    · rw [if_pos wrong]
      simpa [Nat.not_lt.mp short] using wrong
    · rw [if_neg wrong]
      simpa [Nat.not_lt.mp short] using wrong

theorem decodeRequest_parts {payload : Bytes} {req : Request}
    (accepted : decodeRequest payload = some (.ok req)) :
    payload = payload.take (22 + lengthAt payload 10) ++ (req.key ++ req.value) ∧
      req.key.length = lengthAt payload 14 ∧ req.value.length = lengthAt payload 18 := by
  obtain ⟨room, exactly⟩ := (decodeRequest_accepts payload).mp ⟨req, accepted⟩
  obtain ⟨cmd, flags, rest, bytes⟩ := cons_of_header room
  rw [decodeRequest_cons bytes room, if_neg (not_not.mpr exactly)] at accepted
  have same := Except.ok.inj (Option.some.inj accepted)
  subst same
  simp only [List.length_take, List.length_drop]
  refine ⟨?_, by omega, by omega⟩
  have last : (payload.drop (22 + lengthAt payload 10 + lengthAt payload 14)).take (lengthAt payload 18) =
      payload.drop (22 + lengthAt payload 10 + lengthAt payload 14) :=
    List.take_of_length_le (by rw [List.length_drop]; omega)
  rw [last, ← List.append_assoc, ← List.take_add, List.take_append_drop]

theorem request_codec :
    (∀ req : Request, req.key.length < 2 ^ 32 → req.value.length < 2 ^ 32 → req.seq < 2 ^ 64 →
      ∃ payload, encodeRequest req = some (.ok payload) ∧ decodeRequest payload =
        some (.ok { req with seq := if req.cmd = cmdPut then req.seq else 0 })) ∧
    (∀ payload, (∃ req, decodeRequest payload = some (.ok req)) ↔ 22 ≤ payload.length ∧
      payload.length = 22 + lengthAt payload 10 + lengthAt payload 14 + lengthAt payload 18) ∧
    (∀ payload req, decodeRequest payload = some (.ok req) →
      payload = payload.take (22 + lengthAt payload 10) ++ (req.key ++ req.value) ∧
        req.key.length = lengthAt payload 14 ∧ req.value.length = lengthAt payload 18) ∧
    (∀ payload, decodeRequest payload ≠ none) ∧
    -- no sum of lengths leaves the 64-bit integers
    (∀ payload, 22 + lengthAt payload 10 + lengthAt payload 14 + lengthAt payload 18 < 2 ^ 63) := by
  refine ⟨?_, decodeRequest_accepts, fun payload req => decodeRequest_parts, ?_, ?_⟩
  · intro req keyFits valueFits word
    have encoded : ∃ payload, Server.encodeRequest req = some payload := by
      rw [Server.encodeRequest, if_neg (by omega), if_neg (by omega)]
      exact ⟨_, rfl⟩
    obtain ⟨payload, encoded⟩ := encoded
    refine ⟨payload, ?_, ?_⟩
    · rw [encodeRequest_eq, encoded, Option.elim_some]
    · rw [decodeRequest_eq, Server.decodeRequest_encoded word encoded, Option.elim_some]
  · intro payload
    rw [decodeRequest_eq]
    exact Option.some_ne_none _
  · intro payload
    have rid := lengthAt_lt payload 10
    have klen := lengthAt_lt payload 14
    have vlen := lengthAt_lt payload 18
    omega

/-- A get with a sequence number loses it. -/
theorem request_codec_get : ∃ payload,
    encodeRequest { cmd := 1, key := [107], value := [], seq := 9 } = some (.ok payload) ∧
      decodeRequest payload = some (.ok { cmd := 1, key := [107], value := [], seq := 0 }) :=
  request_codec.1 { cmd := 1, key := [107], value := [], seq := 9 } (by decide) (by decide) (by decide)

def layout (resp : Response) : Bytes :=
  resp.status :: (le 8 resp.seq ++ (le 4 resp.value.length ++ resp.value))

def Admitted (resp : Response) : Prop :=
  resp.value.length < 2 ^ 32 ∧ ¬statusMaxKnown < resp.status ∧
    ¬(statusCanCarryValue resp.status = false ∧ resp.value.length ≠ 0)

/-- Every write of `EncodeResponse` lies inside its buffer and together they fill it. -/
theorem encodeResponse_eq (resp : Response) : encodeResponse resp = some
    (if 2 ^ 32 - 1 < resp.value.length then .error .frameTooLarge
      else if statusMaxKnown < resp.status then .error .unknownStatus
      else if statusCanCarryValue resp.status = false ∧ resp.value.length ≠ 0 then .error .invalidMessage
      else .ok (layout resp)) := by
  have full : responseHeaderSize + resp.value.length - 1 - 8 - 4 - resp.value.length = 0 := by
    rw [responseHeaderSize]
    omega
  rw [encodeResponse, ← List.nil_append (List.replicate _ _)]
  simp (disch := grind [responseHeaderSize, responseStatusOff, responseSeqOff, responseVLenOff,
    responseValueOff, le_length]) only [put_replicate, copy_replicate, Option.bind_eq_bind, Option.bind_some]
  simp only [apply_ite some]
  simp [full, layout]

theorem encodeResponse_ok {resp : Response} {payload : Bytes} :
    encodeResponse resp = some (.ok payload) ↔ Admitted resp ∧ payload = layout resp := by
  rw [encodeResponse_eq, Admitted]
  by_cases long : 2 ^ 32 - 1 < resp.value.length
  · rw [if_pos long]
    simp only [Option.some.injEq, reduceCtorEq, false_iff]
    omega
  by_cases unknown : statusMaxKnown < resp.status
  · rw [if_neg long, if_pos unknown]
    simp [unknown]
  by_cases carries : statusCanCarryValue resp.status = false ∧ resp.value.length ≠ 0
  · rw [if_neg long, if_neg unknown, if_pos carries]
    simp [carries]
  · have fits : resp.value.length < 2 ^ 32 := by omega
    rw [if_neg long, if_neg unknown, if_neg carries, Option.some.injEq, Except.ok.injEq]
    exact ⟨fun same => ⟨⟨fits, unknown, carries⟩, same.symm⟩, fun admitted => admitted.2.symm⟩

theorem decodeResponse_short {payload : Bytes} (short : payload.length < 13) :
    decodeResponse payload = some (.error .invalidMessage) := by
  rw [decodeResponse, responseHeaderSize, if_pos short]

/-- With the header there, no index and no slice of `DecodeResponse` leaves the payload. -/
theorem decodeResponse_cons {payload rest : Bytes} {st : UInt8} (bytes : payload = st :: rest)
    (room : 13 ≤ payload.length) : decodeResponse payload = some
      (if payload.length ≠ 13 + lengthAt payload 9 then .error .invalidMessage
      else if statusMaxKnown < st then .error .unknownStatus
      else if statusCanCarryValue st = false ∧ lengthAt payload 9 ≠ 0 then .error .invalidMessage
      else .ok {
        status := st
        value := payload.drop 13
        seq := ofLE ((payload.drop 1).take 8) }) := by
  have first : payload[0]? = some st := by rw [bytes, List.getElem?_cons_zero]
  rw [decodeResponse, responseHeaderSize, responseStatusOff, responseSeqOff, responseVLenOff,
    responseValueOff, if_neg (Nat.not_lt.mpr room), first, uint_of_le (by omega), uint_lengthAt (by omega)]
  simp only [Option.bind_eq_bind, Option.bind_some, lenFromU32_lengthAt, apply_ite some]
  by_cases wrong : payload.length ≠ 13 + lengthAt payload 9
  · rw [if_pos wrong, if_pos wrong]
  · have all : (payload.drop 13).take (lengthAt payload 9) = payload.drop 13 :=
      List.take_of_length_le (by rw [List.length_drop]; omega)
    rw [if_neg wrong, if_neg wrong, slice_of_le (by omega), Option.bind_some, all]

theorem layout_length (resp : Response) : (layout resp).length = 13 + resp.value.length := by
  simp only [layout, List.length_cons, List.length_append, le_length]
  omega

theorem layout_drop (resp : Response) : (layout resp).drop 1 = le 8 resp.seq ++
    (le 4 resp.value.length ++ resp.value) ∧ (layout resp).drop 9 = le 4 resp.value.length ++ resp.value ∧
      (layout resp).drop 13 = resp.value := by
  have afterSeq : (layout resp).drop (1 + 8) = le 4 resp.value.length ++ resp.value := by
    rw [← List.drop_drop]
    exact List.drop_left' (le_length 8 _)
  have afterLen : (layout resp).drop (9 + 4) = resp.value := by
    rw [← List.drop_drop, afterSeq]
    exact List.drop_left' (le_length 4 _)
  exact ⟨rfl, afterSeq, afterLen⟩

/-- A payload of the right length is the layout of the response read from it. -/
theorem layout_read {payload rest : Bytes} {st : UInt8} (bytes : payload = st :: rest)
    (exactly : payload.length = 13 + lengthAt payload 9) :
    layout { status := st, value := payload.drop 13, seq := ofLE ((payload.drop 1).take 8) } = payload := by
  have length : (payload.drop 13).length = lengthAt payload 9 := by
    rw [List.length_drop]
    omega
  have seq : le 8 (ofLE ((payload.drop 1).take 8)) = (payload.drop 1).take 8 := by
    have word := le_ofLE ((payload.drop 1).take 8)
    rwa [List.length_take, List.length_drop, Nat.min_eq_left (by omega)] at word
  have size : le 4 (lengthAt payload 9) = (payload.drop 9).take 4 := by
    have word := le_ofLE ((payload.drop 9).take 4)
    rwa [List.length_take, List.length_drop, Nat.min_eq_left (by omega)] at word
  simp only [layout, length, seq, size]
  calc st :: ((payload.drop 1).take 8 ++ ((payload.drop 9).take 4 ++ payload.drop 13))
      = st :: ((payload.drop 1).take 8 ++ payload.drop 9) := by
        rw [show payload.drop 13 = (payload.drop 9).drop 4 by rw [List.drop_drop], List.take_append_drop]
    _ = st :: payload.drop 1 := by
        rw [show payload.drop 9 = (payload.drop 1).drop 8 by rw [List.drop_drop], List.take_append_drop]
    _ = payload := by rw [bytes, List.drop_one, List.tail_cons]

/-- The response that is read has passed the checks. -/
theorem decodeResponse_read {resp : Response} {payload : Bytes}
    (accepted : decodeResponse payload = some (.ok resp)) :
    Admitted resp ∧ resp.seq < 2 ^ 64 ∧ payload = layout resp := by
  by_cases short : payload.length < 13
  · rw [decodeResponse_short short] at accepted
    cases accepted
  obtain ⟨st, rest, bytes⟩ := List.exists_cons_of_length_pos (l := payload) (by omega)
  rw [decodeResponse_cons bytes (Nat.not_lt.mp short)] at accepted
  by_cases wrong : payload.length ≠ 13 + lengthAt payload 9
  · rw [if_pos wrong] at accepted
    cases accepted
  by_cases unknown : statusMaxKnown < st
  · rw [if_neg wrong, if_pos unknown] at accepted
    cases accepted
  by_cases carries : statusCanCarryValue st = false ∧ lengthAt payload 9 ≠ 0
  · rw [if_neg wrong, if_neg unknown, if_pos carries] at accepted
    cases accepted
  rw [if_neg wrong, if_neg unknown, if_neg carries] at accepted
  have same := Except.ok.inj (Option.some.inj accepted)
  subst same
  have exactly := not_not.mp wrong
  have size : (payload.drop 13).length = lengthAt payload 9 := by
    rw [List.length_drop]
    omega
  have word := ofLE_lt ((payload.drop 1).take 8)
  rw [List.length_take, List.length_drop, Nat.min_eq_left (by omega)] at word
  refine ⟨⟨?_, unknown, ?_⟩, by simpa using word, (layout_read bytes exactly).symm⟩
  · rw [size]
    exact lengthAt_lt payload 9
  · rwa [size]

theorem decodeResponse_ok {resp : Response} {payload : Bytes} :
    decodeResponse payload = some (.ok resp) ↔
      Admitted resp ∧ resp.seq < 2 ^ 64 ∧ payload = layout resp := by
  refine ⟨decodeResponse_read, ?_⟩
  rintro ⟨⟨fits, known, carries⟩, word, rfl⟩
  obtain ⟨first, second, third⟩ := layout_drop resp
  have size : lengthAt (layout resp) 9 = resp.value.length := by
    rw [lengthAt, second, List.take_left' (le_length 4 _), ofLE_le 4 _ (by norm_num; omega)]
  have seq : ofLE (((layout resp).drop 1).take 8) = resp.seq := by
    rw [first, List.take_left' (le_length 8 _), ofLE_le 8 _ (by norm_num; omega)]
  have bytes : layout resp = resp.status :: (layout resp).drop 1 := rfl
  rw [decodeResponse_cons bytes (by rw [layout_length]; omega), layout_length, size, if_neg (not_not.mpr rfl),
    if_neg known, if_neg carries, seq, third]

def Grammatical (resp : Response) : Prop :=
  (resp.status = statusOK ∨ resp.status = statusNotFound ∨ resp.status = statusError ∨
    resp.status = statusTimeout) ∧ resp.value.length < 2 ^ 32 ∧ (resp.status ≠ statusOK → resp.value = [])

/-- The checks let one status more through than the grammar has. -/
theorem admitted_iff (resp : Response) :
    Admitted resp ↔ Grammatical resp ∨ (resp.status = statusMaxKnown ∧ resp.value = []) := by
  have codes : ¬statusMaxKnown < resp.status ↔ (resp.status = statusOK ∨ resp.status = statusNotFound ∨
      resp.status = statusError ∨ resp.status = statusTimeout) ∨ resp.status = statusMaxKnown := by
    generalize resp.status = st
    revert st
    decide +kernel
  have empty : ¬(statusCanCarryValue resp.status = false ∧ resp.value.length ≠ 0) ↔
      (resp.status ≠ statusOK → resp.value = []) := by
    simp only [statusCanCarryValue, beq_eq_false_iff_ne, List.length_eq_zero_iff, ne_eq, not_and, not_not]
  have sentinel : resp.status = statusMaxKnown → resp.status ≠ statusOK := by
    rintro same ok
    rw [ok] at same
    exact absurd same (by decide)
  rw [Admitted, codes, empty, Grammatical]
  constructor
  · rintro ⟨fits, declared | last, carries⟩
    · exact .inl ⟨declared, fits, carries⟩
    · exact .inr ⟨last, carries (sentinel last)⟩
  · rintro (⟨declared, fits, carries⟩ | ⟨last, none⟩)
    · exact ⟨fits, .inl declared, carries⟩
    · exact ⟨by simp [none], .inr last, fun _ => none⟩

theorem not_grammatical_of_sentinel {resp : Response} (last : resp.status = statusMaxKnown) :
    ¬Grammatical resp := by
  rintro ⟨declared, -, -⟩
  rw [last] at declared
  exact absurd declared (by decide)

theorem response_codec (resp : Response) (payload : Bytes) :
    (((∃ bytes, encodeResponse resp = some (.ok bytes)) ↔ Grammatical resp) ↔
      ¬(resp.status = statusMaxKnown ∧ resp.value = [])) ∧
    ((∃ decoded, decodeResponse payload = some (.ok decoded)) ↔
      ∃ encoded, encoded.seq < 2 ^ 64 ∧ encodeResponse encoded = some (.ok payload)) ∧
    (resp.seq < 2 ^ 64 → encodeResponse resp = some (.ok payload) → decodeResponse payload = some (.ok resp)) ∧
    (decodeResponse payload = some (.ok resp) → encodeResponse resp = some (.ok payload)) ∧
    encodeResponse resp ≠ none ∧ decodeResponse payload ≠ none := by
  refine ⟨?_, ?_, ?_, ?_, ?_, ?_⟩
  · have succeeds : (∃ bytes, encodeResponse resp = some (.ok bytes)) ↔ Admitted resp :=
      ⟨fun ⟨_, encoded⟩ => (encodeResponse_ok.mp encoded).1,
        fun admitted => ⟨_, encodeResponse_ok.mpr ⟨admitted, rfl⟩⟩⟩
    rw [succeeds, admitted_iff]
    constructor
    · intro exactly last
      exact not_grammatical_of_sentinel last.1 (exactly.mp (.inr last))
    · intro declared
      exact ⟨fun admitted => admitted.resolve_right declared, .inl⟩
  · constructor
    · rintro ⟨decoded, accepted⟩
      obtain ⟨admitted, word, layout⟩ := decodeResponse_ok.mp accepted
      exact ⟨decoded, word, encodeResponse_ok.mpr ⟨admitted, layout⟩⟩
    · rintro ⟨encoded, word, succeeds⟩
      obtain ⟨admitted, layout⟩ := encodeResponse_ok.mp succeeds
      exact ⟨encoded, decodeResponse_ok.mpr ⟨admitted, word, layout⟩⟩
  · intro word encoded
    obtain ⟨admitted, layout⟩ := encodeResponse_ok.mp encoded
    exact decodeResponse_ok.mpr ⟨admitted, word, layout⟩
  · intro accepted
    obtain ⟨admitted, -, layout⟩ := decodeResponse_ok.mp accepted
    exact encodeResponse_ok.mpr ⟨admitted, layout⟩
  · rw [encodeResponse_eq]
    exact Option.some_ne_none _
  · by_cases short : payload.length < 13
    · rw [decodeResponse_short short]
      exact Option.some_ne_none _
    · obtain ⟨st, rest, bytes⟩ := List.exists_cons_of_length_pos (l := payload) (by omega)
      rw [decodeResponse_cons bytes (Nat.not_lt.mp short)]
      exact Option.some_ne_none _

/-- The sentinel is not a declared status, and both functions let it through. -/
theorem sentinel_status_encoded :
    encodeResponse { status := statusMaxKnown } = some (.ok [4, 0, 0, 0, 0, 0, 0, 0, 0, 0, 0, 0, 0]) ∧
      decodeResponse [4, 0, 0, 0, 0, 0, 0, 0, 0, 0, 0, 0, 0] = some (.ok { status := statusMaxKnown }) ∧
      ¬Grammatical { status := statusMaxKnown } :=
  ⟨by decide +kernel, by decide +kernel, not_grammatical_of_sentinel rfl⟩

/-- A response that times out is encoded and decoded. -/
theorem response_codec_timeout :
    (((∃ payload, encodeResponse { status := statusTimeout, seq := 7 } = some (.ok payload)) ↔
      Grammatical { status := statusTimeout, seq := 7 }) ↔
        ¬(statusTimeout = statusMaxKnown ∧ ([] : Bytes) = [])) ∧
      ∃ payload, encodeResponse { status := statusTimeout, seq := 7 } = some (.ok payload) ∧
        decodeResponse payload = some (.ok { status := statusTimeout, seq := 7 }) :=
  ⟨(response_codec { status := statusTimeout, seq := 7 } []).1,
    [3, 7, 0, 0, 0, 0, 0, 0, 0, 0, 0, 0, 0], by decide +kernel,
    (response_codec _ _).2.2.1 (by decide) (by decide +kernel)⟩

end Protocol

end Kvgo

import Kvgo.Lib.Words
import Kvgo.Raft.Message

/-! The bytes of a replicated command: a request (`protocol/message.go`) behind the id that
`marshalEnvelope` puts in front of it (`server/envelope.go`). -/

namespace Kvgo

open Words

namespace Server

def cmdPut : UInt8 := 2

def flagHasSeq : UInt8 := 1

def requestHeaderSize : Nat := 22

structure Request where
  cmd : UInt8
  key : Bytes
  value : Bytes
  seq : Nat := 0
  deriving DecidableEq, Repr

/-- `EncodeRequest`; `none` is `ErrFrameTooLarge`. -/
def encodeRequest (req : Request) : Option Bytes :=
  if 2 ^ 32 - 1 < req.key.length then none
  else if 2 ^ 32 - 1 < req.value.length then none
  else
    let flags : UInt8 := if req.cmd = cmdPut then flagHasSeq else 0
    some ([req.cmd, flags] ++ le 8 req.seq ++ le 4 0 ++ le 4 req.key.length ++
      le 4 req.value.length ++ req.key ++ req.value)

/-- `DecodeRequest`; `none` is `ErrInvalidMessage`. -/
def decodeRequest (payload : Bytes) : Option Request :=
  match payload with
  | cmd :: flags :: rest =>
    if payload.length < requestHeaderSize then none
    else
      let seq := ofLE (rest.take 8)
      let ridlen := ofLE ((rest.drop 8).take 4)
      let klen := ofLE ((rest.drop 12).take 4)
      let vlen := ofLE ((rest.drop 16).take 4)
      if payload.length ≠ requestHeaderSize + ridlen + klen + vlen then none
      else some {
        cmd
        key := (rest.drop (20 + ridlen)).take klen
        value := (rest.drop (20 + ridlen + klen)).take vlen
        seq := if flags &&& flagHasSeq ≠ 0 then seq else 0 }
  | _ => none

def envelopeHeaderSize : Nat := 8

def marshalEnvelope (id : Nat) (payload : Bytes) : Bytes := le 8 id ++ payload

/-- `unmarshalEnvelope`; `none` is `errEnvelopeTooShort`. -/
def unmarshalEnvelope (data : Bytes) : Option (Nat × Bytes) :=
  if data.length < envelopeHeaderSize then none
  else some (ofLE (data.take 8), data.drop 8)

theorem unmarshalEnvelope_marshalEnvelope (id : Nat) (payload : Bytes) :
    unmarshalEnvelope (marshalEnvelope id payload) = some (ofLE (le 8 id), payload) := by
  have size : ¬(marshalEnvelope id payload).length < envelopeHeaderSize := by
    simp [marshalEnvelope, envelopeHeaderSize]
  rw [unmarshalEnvelope, if_neg size, marshalEnvelope, List.take_left' (le_length 8 id),
    List.drop_left' (le_length 8 id)]

/-- The fixed fields of a request behind its first two bytes, and what follows them. -/
theorem header_fields {seq rid klen vlen : Bytes} (seqSize : seq.length = 8) (ridSize : rid.length = 4)
    (klenSize : klen.length = 4) (vlenSize : vlen.length = 4) (body : Bytes) :
    (seq ++ (rid ++ (klen ++ (vlen ++ body)))).take 8 = seq ∧
      ((seq ++ (rid ++ (klen ++ (vlen ++ body)))).drop 8).take 4 = rid ∧
      ((seq ++ (rid ++ (klen ++ (vlen ++ body)))).drop 12).take 4 = klen ∧
      ((seq ++ (rid ++ (klen ++ (vlen ++ body)))).drop 16).take 4 = vlen ∧
      (seq ++ (rid ++ (klen ++ (vlen ++ body)))).drop 20 = body := by
  have afterSeq : (seq ++ (rid ++ (klen ++ (vlen ++ body)))).drop 8 = rid ++ (klen ++ (vlen ++ body)) :=
    List.drop_left' seqSize
  have afterRid : (seq ++ (rid ++ (klen ++ (vlen ++ body)))).drop (8 + 4) = klen ++ (vlen ++ body) := by
    rw [← List.drop_drop, afterSeq, List.drop_left' ridSize]
  have afterKlen : (seq ++ (rid ++ (klen ++ (vlen ++ body)))).drop (12 + 4) = vlen ++ body := by
    rw [← List.drop_drop, afterRid, List.drop_left' klenSize]
  have afterVlen : (seq ++ (rid ++ (klen ++ (vlen ++ body)))).drop (16 + 4) = body := by
    rw [← List.drop_drop, afterKlen, List.drop_left' vlenSize]
  exact ⟨List.take_left' seqSize, by rw [afterSeq, List.take_left' ridSize],
    by rw [afterRid, List.take_left' klenSize], by rw [afterKlen, List.take_left' vlenSize], afterVlen⟩

/-- What is encoded is decoded again; only a put keeps its sequence number. -/
theorem decodeRequest_encoded {req : Request} {payload : Bytes} (word : req.seq < 2 ^ 64)
    (encoded : encodeRequest req = some payload) :
    decodeRequest payload = some { req with seq := if req.cmd = cmdPut then req.seq else 0 } := by
  unfold encodeRequest at encoded
  split at encoded
  · cases encoded
  · next keyFits =>
    split at encoded
    · cases encoded
    · next valueFits =>
      cases encoded
      have klen : ofLE (le 4 req.key.length) = req.key.length := ofLE_le 4 _ (by norm_num; omega)
      have vlen : ofLE (le 4 req.value.length) = req.value.length := ofLE_le 4 _ (by norm_num; omega)
      have ridlen : ofLE (le 4 0) = 0 := ofLE_le 4 0 (by norm_num)
      have seq : ofLE (le 8 req.seq) = req.seq := ofLE_le 8 _ (by norm_num; omega)
      obtain ⟨first, second, third, fourth, body⟩ := header_fields (le_length 8 req.seq) (le_length 4 0)
        (le_length 4 req.key.length) (le_length 4 req.value.length) (req.key ++ req.value)
      have valueAt : (le 8 req.seq ++ (le 4 0 ++ (le 4 req.key.length ++ (le 4 req.value.length ++
          (req.key ++ req.value))))).drop (20 + req.key.length) = req.value := by
        rw [← List.drop_drop, body, List.drop_left]
      have kept : (if (if req.cmd = cmdPut then flagHasSeq else 0) &&& flagHasSeq ≠ 0 then req.seq else 0) =
          if req.cmd = cmdPut then req.seq else 0 := by
        split <;> rfl
      simp only [List.append_assoc, List.cons_append, List.nil_append, decodeRequest, first, second, third,
        fourth, klen, vlen, ridlen, seq, kept, Nat.add_zero, body, valueAt, List.take_left, List.take_length]
      rw [if_neg (by simp [requestHeaderSize]; omega), if_neg (by simp [requestHeaderSize]; omega)]

theorem decodeRequest_encodeRequest {key value payload : Bytes}
    (encoded : encodeRequest { cmd := cmdPut, key, value } = some payload) :
    decodeRequest payload = some { cmd := cmdPut, key, value } := by
  rw [decodeRequest_encoded (by norm_num) encoded, if_pos rfl]

end Server

end Kvgo

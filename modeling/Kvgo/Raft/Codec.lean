import Kvgo.Lib.Words
import Kvgo.Lib.Runs
import Kvgo.Raft.Durable

/-! The bytes of a save batch (`message.go`): a hard state of fixed size, the length of
what follows, and one frame for each entry. The decoder indexes into bytes that may have
any length, so each slice and each word it reads is checked against the length here, and
a read that is out of range ends in a run-time panic. -/

namespace Kvgo

open Words

namespace Codec

inductive CodecError where
  | unexpectedBytes
  | corruption
  deriving DecidableEq, Repr

def sub (data : Bytes) (lo hi : Nat) : Except Panic Bytes :=
  if lo ≤ hi ∧ hi ≤ data.length then .ok ((data.take hi).drop lo) else .error .runtime

/-- `binary.LittleEndian.Uint64` and `Uint32`: the first bytes of a slice as a word. -/
def word (width : Nat) (data : Bytes) : Except Panic Nat :=
  if data.length < width then .error .runtime else .ok (ofLE (data.take width))

def encodeEntry (e : Entry) : Bytes := le 8 e.index ++ le 8 e.term ++ e.data

def decodeEntry (data : Bytes) : Except Panic (Except CodecError Entry) :=
  if data.length < 16 then .ok (.error .unexpectedBytes)
  else do
    let index ← word 8 data
    let term ← word 8 (← sub data 8 data.length)
    let payload ← sub data 16 data.length
    return .ok ⟨index, term, payload⟩

def encodeHardState (h : HardState) : Bytes :=
  le 8 h.term ++ le 8 h.votedFor ++ le 8 h.committedIndex

def decodeHardState (data : Bytes) : Except Panic (Except CodecError HardState) :=
  if data.length ≠ hardStateBytes then .ok (.error .unexpectedBytes)
  else do
    let term ← word 8 (← sub data 0 8)
    let votedFor ← word 8 (← sub data 8 16)
    let committedIndex ← word 8 (← sub data 16 data.length)
    return .ok ⟨term, votedFor, committedIndex⟩

def entryBytes (entries : List Entry) : Nat :=
  (entries.map (fun e => frameHeaderSize + entrySize e)).sum

def encodeFrames (entries : List Entry) : Bytes :=
  (entries.map (fun e => le frameHeaderSize (entrySize e) ++ encodeEntry e)).flatten

def encodeSaveBatch (hard : HardState) (entries : List Entry) : Bytes :=
  encodeHardState hard ++ le frameHeaderSize (entryBytes entries) ++ encodeFrames entries

theorem sub_ok {data : Bytes} {lo hi : Nat} (low : lo ≤ hi) (high : hi ≤ data.length) :
    sub data lo hi = .ok ((data.take hi).drop lo) := if_pos ⟨low, high⟩

theorem sub_from {data : Bytes} {lo : Nat} (low : lo ≤ data.length) :
    sub data lo data.length = .ok (data.drop lo) := by
  rw [sub_ok low le_rfl, List.take_length]

theorem word_ok {width : Nat} {data : Bytes} (long : width ≤ data.length) :
    word width data = .ok (ofLE (data.take width)) := if_neg (by omega)

theorem sub_eq_ok {data out : Bytes} {lo hi : Nat} (cut : sub data lo hi = .ok out) :
    lo ≤ hi ∧ hi ≤ data.length ∧ out = (data.take hi).drop lo := by
  unfold sub at cut
  split at cut
  · next bounds => exact ⟨bounds.1, bounds.2, (Except.ok.inj cut).symm⟩
  · cases cut

/-- The loop of `decodeEntries`, with the position it has reached. -/
def decodeLoop (data : Bytes) (idx : Nat) (entries : List Entry) :
    Except Panic (Except CodecError (List Entry)) :=
  match _slice : sub data idx data.length with
  | .error p => .error p
  | .ok buf =>
    if buf.length = 0 then .ok (.ok entries)
    else if _short : buf.length < frameHeaderSize then .ok (.error .corruption)
    else
      match word frameHeaderSize buf with
      | .error p => .error p
      | .ok frame =>
        match sub data (idx + frameHeaderSize) data.length with
        | .error p => .error p
        | .ok buf =>
          if buf.length < frame then .ok (.error .corruption)
          else
            match sub buf 0 frame with
            | .error p => .error p
            | .ok framed =>
              match decodeEntry framed with
              | .error p => .error p
              | .ok (.error _) => .ok (.error .corruption)
              | .ok (.ok e) => decodeLoop data (idx + frameHeaderSize + frame) (entries ++ [e])
termination_by data.length - idx
decreasing_by
  obtain ⟨_, _, rfl⟩ := sub_eq_ok _slice
  simp only [List.length_drop, List.length_take, frameHeaderSize] at _short ⊢
  omega

def decodeEntries (data : Bytes) : Except Panic (Except CodecError (List Entry)) :=
  decodeLoop data 0 []

/-- `decodeSaveBatch`: the hard state, the entries and the error, as the source returns them. -/
def decodeSaveBatch (batch : Bytes) :
    Except Panic (Option HardState × List Entry × Option CodecError) :=
  if batch.length < hardStateBytes then .ok (none, [], some .corruption)
  else do
    let hd ← decodeHardState (← sub batch 0 hardStateBytes)
    let hd := hd.toOption
    let batch ← sub batch hardStateBytes batch.length
    if batch.length < frameHeaderSize then return (hd, [], some .corruption)
    let entryBytes ← word frameHeaderSize batch
    let batch ← sub batch frameHeaderSize batch.length
    if batch.length ≠ entryBytes then return (hd, [], some .corruption)
    match ← decodeEntries batch with
    | .error _ => return (hd, [], some .corruption)
    | .ok ents => return (hd, ents, none)

/-! The fields of both records are of type `uint64`. -/

def EntryWords (e : Entry) : Prop := e.index < 2 ^ 64 ∧ e.term < 2 ^ 64

def HardWords (h : HardState) : Prop :=
  h.term < 2 ^ 64 ∧ h.votedFor < 2 ^ 64 ∧ h.committedIndex < 2 ^ 64

instance (e : Entry) : Decidable (EntryWords e) := inferInstanceAs (Decidable (_ ∧ _))

instance (h : HardState) : Decidable (HardWords h) := inferInstanceAs (Decidable (_ ∧ _))

/-! ### One record -/

@[simp] theorem encodeEntry_length (e : Entry) : (encodeEntry e).length = entrySize e := by
  simp [encodeEntry, entrySize]
  omega

@[simp] theorem encodeHardState_length (h : HardState) :
    (encodeHardState h).length = hardStateBytes := by
  simp [encodeHardState, hardStateBytes]

theorem ofLE_word {n : Nat} (fits : n < 2 ^ 64) : ofLE (le 8 n) = n :=
  ofLE_le 8 n (by simpa using fits)

theorem le_word {bs : Bytes} {width : Nat} (wide : bs.length = width) : le width (ofLE bs) = bs := by
  rw [← wide, le_ofLE]

theorem decodeEntry_eq {data : Bytes} (long : 16 ≤ data.length) :
    decodeEntry data =
      .ok (.ok ⟨ofLE (data.take 8), ofLE ((data.drop 8).take 8), data.drop 16⟩) := by
  have tail : 8 ≤ (data.drop 8).length := by rw [List.length_drop]; omega
  rw [decodeEntry, if_neg (by omega), word_ok (by omega), sub_from (by omega), sub_from long]
  simp only [bind, Except.bind, word_ok tail]
  rfl

theorem decodeEntry_short {data : Bytes} (short : data.length < 16) :
    decodeEntry data = .ok (.error .unexpectedBytes) := if_pos short

theorem decodeEntry_encodeEntry (e : Entry) (words : EntryWords e) :
    decodeEntry (encodeEntry e) = .ok (.ok e) := by
  have long : 16 ≤ (encodeEntry e).length := by rw [encodeEntry_length, entrySize]; omega
  have first : (encodeEntry e).take 8 = le 8 e.index := by simp [encodeEntry]
  have second : ((encodeEntry e).drop 8).take 8 = le 8 e.term := by simp [encodeEntry]
  have payload : (encodeEntry e).drop 16 = e.data := by
    simp [encodeEntry, List.drop_append]
  rw [decodeEntry_eq long, first, second, payload, ofLE_word words.1, ofLE_word words.2]

/-- Decoding loses nothing: the bytes can be made again from the record. -/
theorem encodeEntry_decodeEntry {data : Bytes} {e : Entry}
    (decoded : decodeEntry data = .ok (.ok e)) : encodeEntry e = data := by
  by_cases long : 16 ≤ data.length
  · rw [decodeEntry_eq long] at decoded
    cases decoded
    have first : (data.take 8).length = 8 := by rw [List.length_take]; omega
    have second : ((data.drop 8).take 8).length = 8 := by
      rw [List.length_take, List.length_drop]; omega
    have parts : data.drop 8 = (data.drop 8).take 8 ++ data.drop 16 := by
      conv_lhs => rw [← List.take_append_drop 8 (data.drop 8)]
      rw [List.drop_drop]
    rw [encodeEntry, le_word first, le_word second, List.append_assoc, ← parts,
      List.take_append_drop]
  · rw [decodeEntry_short (by omega)] at decoded
    cases decoded

theorem decodeHardState_eq {data : Bytes} (long : data.length = hardStateBytes) :
    decodeHardState data =
      .ok (.ok ⟨ofLE (data.take 8), ofLE ((data.drop 8).take 8), ofLE (data.drop 16)⟩) := by
  have size : data.length = 24 := long
  have first : (data.take 8).length = 8 := by rw [List.length_take]; omega
  have second : ((data.take 16).drop 8).length = 8 := by
    rw [List.length_drop, List.length_take]; omega
  have third : (data.drop 16).length = 8 := by rw [List.length_drop]; omega
  rw [decodeHardState, if_neg (by omega), sub_ok (by omega) (by omega),
    sub_ok (by omega) (by omega), sub_from (by omega)]
  simp only [bind, Except.bind, List.drop_zero, word_ok first.ge, word_ok second.ge, word_ok third.ge]
  rw [List.take_take, List.take_of_length_le second.le, List.take_of_length_le third.le,
    List.drop_take]
  rfl

theorem decodeHardState_encodeHardState (h : HardState) (words : HardWords h) :
    decodeHardState (encodeHardState h) = .ok (.ok h) := by
  have first : (encodeHardState h).take 8 = le 8 h.term := by simp [encodeHardState]
  have second : ((encodeHardState h).drop 8).take 8 = le 8 h.votedFor := by simp [encodeHardState]
  have third : (encodeHardState h).drop 16 = le 8 h.committedIndex := by
    simp [encodeHardState, List.drop_append]
  rw [decodeHardState_eq (encodeHardState_length h), first, second, third, ofLE_word words.1,
    ofLE_word words.2.1, ofLE_word words.2.2]

theorem encodeHardState_decodeHardState {data : Bytes} {h : HardState}
    (decoded : decodeHardState data = .ok (.ok h)) : encodeHardState h = data := by
  by_cases long : data.length = hardStateBytes
  · rw [decodeHardState_eq long] at decoded
    cases decoded
    have size : data.length = 24 := long
    have first : (data.take 8).length = 8 := by rw [List.length_take]; omega
    have second : ((data.drop 8).take 8).length = 8 := by
      rw [List.length_take, List.length_drop]; omega
    have third : (data.drop 16).length = 8 := by rw [List.length_drop]; omega
    have parts : data.drop 8 = (data.drop 8).take 8 ++ data.drop 16 := by
      conv_lhs => rw [← List.take_append_drop 8 (data.drop 8)]
      rw [List.drop_drop]
    rw [encodeHardState, le_word first, le_word second, le_word third, List.append_assoc, ← parts,
      List.take_append_drop]
  · rw [decodeHardState, if_pos long] at decoded
    cases decoded

/-! ### The loop over the frames -/

@[simp] theorem encodeFrames_length (entries : List Entry) :
    (encodeFrames entries).length = entryBytes entries := by
  induction entries with
  | nil => rfl
  | cons e rest ih =>
    simp only [encodeFrames, entryBytes, List.map_cons, List.flatten_cons, List.length_append,
      le_length, encodeEntry_length, List.sum_cons, frameHeaderSize] at ih ⊢
    omega

theorem encodeFrames_cons (e : Entry) (rest : List Entry) :
    encodeFrames (e :: rest) = le frameHeaderSize (entrySize e) ++ encodeEntry e ++ encodeFrames rest := by
  simp [encodeFrames]

theorem decodeLoop_done (data : Bytes) (acc : List Entry) :
    decodeLoop data data.length acc = .ok (.ok acc) := by
  rw [decodeLoop]
  split
  · next p cut => rw [sub_from le_rfl] at cut; cases cut
  · next buf cut =>
    rw [sub_from le_rfl] at cut
    cases cut
    simp

/-- What one pass of the loop does, by the bytes that are left. -/
theorem decodeLoop_eq {data : Bytes} {idx : Nat} (acc : List Entry) (inside : idx < data.length) :
    decodeLoop data idx acc =
      if data.length - idx < frameHeaderSize then .ok (.error .corruption)
      else
        let frame := ofLE ((data.drop idx).take frameHeaderSize)
        if data.length - (idx + frameHeaderSize) < frame then .ok (.error .corruption)
        else
          match decodeEntry ((data.drop (idx + frameHeaderSize)).take frame) with
          | .error p => .error p
          | .ok (.error _) => .ok (.error .corruption)
          | .ok (.ok e) => decodeLoop data (idx + frameHeaderSize + frame) (acc ++ [e]) := by
  rw [decodeLoop]
  split
  · next p cut => rw [sub_from inside.le] at cut; cases cut
  · next buf cut =>
    rw [sub_from inside.le] at cut
    cases cut
    rw [if_neg (by rw [List.length_drop]; omega), List.length_drop]
    by_cases short : data.length - idx < frameHeaderSize
    · rw [dif_pos short, if_pos short]
    · have header : frameHeaderSize ≤ (data.drop idx).length := by rw [List.length_drop]; omega
      rw [dif_neg short, if_neg short]
      simp only [word_ok header]
      rw [sub_from (by omega)]
      simp only [List.length_drop]
      split
      · rfl
      · next enough =>
        rw [sub_ok (Nat.zero_le _) (by rw [List.length_drop]; omega)]
        simp only [List.drop_zero]

/-- A frame at the position of the loop is decoded and passed over. -/
theorem decodeLoop_frame {data rest : Bytes} {idx : Nat} {e : Entry} (acc : List Entry)
    (words : EntryWords e) (small : entrySize e < 2 ^ 32)
    (left : data.drop idx = le frameHeaderSize (entrySize e) ++ encodeEntry e ++ rest) :
    decodeLoop data idx acc =
      decodeLoop data (idx + frameHeaderSize + entrySize e) (acc ++ [e]) := by
  have positive : 0 < frameHeaderSize := by decide
  have total : data.length - idx = frameHeaderSize + entrySize e + rest.length := by
    have := congrArg List.length left
    simpa [Nat.add_assoc] using this
  have header : (data.drop idx).take frameHeaderSize = le frameHeaderSize (entrySize e) := by
    rw [left]; simp
  have size : ofLE (le frameHeaderSize (entrySize e)) = entrySize e :=
    ofLE_le 4 _ (by simpa using small)
  have body : (data.drop (idx + frameHeaderSize)).take (entrySize e) = encodeEntry e := by
    rw [← List.drop_drop, left]
    simp [List.append_assoc]
  rw [decodeLoop_eq acc (by omega), if_neg (by omega)]
  simp only [header, size]
  rw [if_neg (by omega), body, decodeEntry_encodeEntry e words]

/-- The loop reads back the frames that stand from its position to the end. -/
theorem decodeLoop_encodeFrames (entries : List Entry) (words : ∀ e ∈ entries, EntryWords e)
    (small : entryBytes entries < 2 ^ 32) (data : Bytes) (idx : Nat) (inside : idx ≤ data.length)
    (acc : List Entry) (left : data.drop idx = encodeFrames entries) :
    decodeLoop data idx acc = .ok (.ok (acc ++ entries)) := by
  induction entries generalizing idx acc with
  | nil =>
    have atEnd : idx = data.length := by
      have := congrArg List.length left
      simp [encodeFrames] at this
      omega
    rw [atEnd, decodeLoop_done, List.append_nil]
  | cons e rest ih =>
    have parts : frameHeaderSize + entrySize e + entryBytes rest < 2 ^ 32 := by
      simpa [entryBytes] using small
    rw [encodeFrames_cons] at left
    have total := congrArg List.length left
    simp only [List.length_drop, List.length_append, le_length, encodeEntry_length] at total
    rw [decodeLoop_frame acc (words e List.mem_cons_self) (by omega) left,
      ih (fun e' member => words e' (List.mem_cons_of_mem e member)) (by omega) _ (by omega)]
    · simp
    · rw [Nat.add_assoc, ← List.drop_drop, left]
      exact List.drop_left' (by simp)

/-- The loop never leaves the bytes, and what it accepts is what the encoder writes. -/
theorem decodeLoop_spec (data : Bytes) (idx : Nat) (acc : List Entry) (inside : idx ≤ data.length) :
    ∃ out, decodeLoop data idx acc = .ok out ∧
      ∀ ents, out = .ok ents → ∃ more, ents = acc ++ more ∧ encodeFrames more = data.drop idx := by
  -- induction on the number of bytes that are left
  obtain ⟨left, hleft⟩ : ∃ left, left = data.length - idx := ⟨_, rfl⟩
  induction left using Nat.strong_induction_on generalizing idx acc with
  | _ left ih =>
    rcases Nat.lt_or_eq_of_le inside with before | atEnd
    · rw [decodeLoop_eq acc before]
      split
      · exact ⟨_, rfl, by intro ents done; cases done⟩
      · next header =>
        dsimp only
        generalize hframe : ofLE ((data.drop idx).take frameHeaderSize) = frame
        split
        · exact ⟨_, rfl, by intro ents done; cases done⟩
        · next enough =>
          have size : ((data.drop (idx + frameHeaderSize)).take frame).length = frame := by
            rw [List.length_take, List.length_drop]; omega
          by_cases long : 16 ≤ frame
          · obtain ⟨e, decoded⟩ : ∃ e,
                decodeEntry ((data.drop (idx + frameHeaderSize)).take frame) = .ok (.ok e) :=
              ⟨_, decodeEntry_eq (by omega)⟩
            rw [decoded]
            obtain ⟨out, same, spec⟩ := ih (data.length - (idx + frameHeaderSize + frame))
              (by omega) (idx + frameHeaderSize + frame) (acc ++ [e]) (by omega) rfl
            refine ⟨out, same, fun ents done => ?_⟩
            obtain ⟨more, rfl, frames⟩ := spec ents done
            refine ⟨e :: more, by simp, ?_⟩
            have back := encodeEntry_decodeEntry decoded
            have length : entrySize e = frame := by rw [← encodeEntry_length, back, size]
            have word : le frameHeaderSize frame = (data.drop idx).take frameHeaderSize := by
              rw [← hframe, le_word (by rw [List.length_take, List.length_drop]; omega)]
            have body : (data.drop idx).drop frameHeaderSize = data.drop (idx + frameHeaderSize) :=
              List.drop_drop
            have rest : data.drop (idx + frameHeaderSize + frame) =
                (data.drop (idx + frameHeaderSize)).drop frame := List.drop_drop.symm
            rw [encodeFrames_cons, frames, length, back, word, rest, List.append_assoc,
              List.take_append_drop, ← body, List.take_append_drop]
          · rw [decodeEntry_short (by omega)]
            exact ⟨_, rfl, by intro ents done; cases done⟩
    · refine ⟨_, by rw [atEnd, decodeLoop_done], fun ents done => ?_⟩
      cases done
      exact ⟨[], by simp, by rw [atEnd, List.drop_length]; rfl⟩

theorem decodeEntries_total (data : Bytes) : ∃ out, decodeEntries data = .ok out := by
  obtain ⟨out, same, _⟩ := decodeLoop_spec data 0 [] (Nat.zero_le _)
  exact ⟨out, same⟩

theorem encodeFrames_decodeEntries {data : Bytes} {ents : List Entry}
    (decoded : decodeEntries data = .ok (.ok ents)) : encodeFrames ents = data := by
  obtain ⟨out, same, spec⟩ := decodeLoop_spec data 0 [] (Nat.zero_le _)
  rw [decodeEntries, same] at decoded
  obtain ⟨more, rfl, frames⟩ := spec ents (Except.ok.inj decoded)
  simpa using frames

/-! ### The batch -/

/-- The batch by its three parts: the hard state, the length and the frames. -/
theorem decodeSaveBatch_eq {batch : Bytes} (long : hardStateBytes + frameHeaderSize ≤ batch.length)
    {hd : HardState} (hard : decodeHardState (batch.take hardStateBytes) = .ok (.ok hd)) :
    decodeSaveBatch batch =
      if batch.length - (hardStateBytes + frameHeaderSize) ≠
          ofLE ((batch.drop hardStateBytes).take frameHeaderSize) then
        .ok (some hd, [], some .corruption)
      else
        match decodeEntries (batch.drop (hardStateBytes + frameHeaderSize)) with
        | .error p => .error p
        | .ok (.error _) => .ok (some hd, [], some .corruption)
        | .ok (.ok ents) => .ok (some hd, ents, none) := by
  have header : frameHeaderSize ≤ (batch.drop hardStateBytes).length := by
    rw [List.length_drop]; omega
  have slice : sub (batch.drop hardStateBytes) frameHeaderSize (batch.length - hardStateBytes) =
      .ok (batch.drop (hardStateBytes + frameHeaderSize)) := by
    rw [← List.length_drop, sub_from header, List.drop_drop]
  rw [decodeSaveBatch, if_neg (by omega), sub_ok (by omega) (by omega), sub_from (by omega)]
  simp only [bind, Except.bind, List.drop_zero, hard, List.length_drop, slice, word_ok header]
  rw [if_neg (by omega)]
  simp only [Except.toOption]
  split
  · rfl
  · rcases decodeEntries (batch.drop (hardStateBytes + frameHeaderSize)) with p | (e | ents)
    · rfl
    · rfl
    · rfl

theorem decodeHardState_head {batch : Bytes} (long : hardStateBytes ≤ batch.length) :
    ∃ hd, decodeHardState (batch.take hardStateBytes) = .ok (.ok hd) :=
  ⟨_, decodeHardState_eq (by rw [List.length_take, Nat.min_eq_left long])⟩

theorem decodeSaveBatch_short {batch : Bytes}
    (short : batch.length < hardStateBytes + frameHeaderSize) :
    ∃ hd, decodeSaveBatch batch = .ok (hd, [], some .corruption) := by
  by_cases header : batch.length < hardStateBytes
  · exact ⟨none, if_pos header⟩
  · obtain ⟨hd, hard⟩ := decodeHardState_head (Nat.le_of_not_lt header)
    refine ⟨some hd, ?_⟩
    rw [decodeSaveBatch, if_neg header, sub_ok (by omega) (by omega), sub_from (by omega)]
    simp only [bind, Except.bind, List.drop_zero, hard, List.length_drop]
    rw [if_pos (by omega)]
    rfl

theorem decodeSaveBatch_total (batch : Bytes) : ∃ out, decodeSaveBatch batch = .ok out := by
  rcases Nat.lt_or_ge batch.length (hardStateBytes + frameHeaderSize) with short | long
  · obtain ⟨hd, same⟩ := decodeSaveBatch_short short
    exact ⟨_, same⟩
  · obtain ⟨hd, hard⟩ := decodeHardState_head (le_trans (Nat.le_add_right _ _) long)
    obtain ⟨out, decoded⟩ := decodeEntries_total (batch.drop (hardStateBytes + frameHeaderSize))
    rw [decodeSaveBatch_eq long hard, decoded]
    split
    · exact ⟨_, rfl⟩
    · cases out with
      | error e => exact ⟨_, rfl⟩
      | ok ents => exact ⟨_, rfl⟩

theorem decodeSaveBatch_encodeSaveBatch (hard : HardState) (entries : List Entry)
    (hardWords : HardWords hard) (words : ∀ e ∈ entries, EntryWords e)
    (small : entryBytes entries < 2 ^ 32) :
    decodeSaveBatch (encodeSaveBatch hard entries) = .ok (some hard, entries, none) := by
  have size := encodeHardState_length hard
  have total : (encodeSaveBatch hard entries).length =
      hardStateBytes + frameHeaderSize + entryBytes entries := by
    simp [encodeSaveBatch, Nat.add_assoc]
  have first : (encodeSaveBatch hard entries).take hardStateBytes = encodeHardState hard := by
    rw [encodeSaveBatch, List.append_assoc, List.take_left' size]
  have second : ((encodeSaveBatch hard entries).drop hardStateBytes).take frameHeaderSize =
      le frameHeaderSize (entryBytes entries) := by
    rw [encodeSaveBatch, List.append_assoc, List.drop_left' size, List.take_left' (le_length _ _)]
  have third : (encodeSaveBatch hard entries).drop (hardStateBytes + frameHeaderSize) =
      encodeFrames entries := by
    rw [encodeSaveBatch, List.drop_left' (by simp)]
  rw [decodeSaveBatch_eq (by omega)
      (by rw [first]; exact decodeHardState_encodeHardState hard hardWords),
    second, third, frameHeaderSize, ofLE_le 4 _ (by simpa using small), ← frameHeaderSize,
    if_neg (by omega), decodeEntries,
    decodeLoop_encodeFrames entries words small (encodeFrames entries) 0 (Nat.zero_le _) [] rfl]
  rfl

theorem encodeSaveBatch_decodeSaveBatch {batch : Bytes} {hd : Option HardState} {ents : List Entry}
    (accepted : decodeSaveBatch batch = .ok (hd, ents, none)) :
    ∃ hard, hd = some hard ∧ encodeSaveBatch hard ents = batch := by
  rcases Nat.lt_or_ge batch.length (hardStateBytes + frameHeaderSize) with short | long
  · obtain ⟨_, same⟩ := decodeSaveBatch_short short
    rw [same] at accepted
    cases accepted
  · obtain ⟨hard, read⟩ := decodeHardState_head (le_trans (Nat.le_add_right _ _) long)
    rw [decodeSaveBatch_eq long read] at accepted
    split at accepted
    · cases accepted
    · next same =>
      obtain ⟨out, decoded⟩ := decodeEntries_total (batch.drop (hardStateBytes + frameHeaderSize))
      rw [decoded] at accepted
      cases out with
      | error e => cases accepted
      | ok entries =>
        cases accepted
        have frames := encodeFrames_decodeEntries decoded
        have length : entryBytes ents = ofLE ((batch.drop hardStateBytes).take frameHeaderSize) := by
          rw [← encodeFrames_length, frames, List.length_drop]
          omega
        have parts : (batch.drop hardStateBytes).drop frameHeaderSize =
            batch.drop (hardStateBytes + frameHeaderSize) := List.drop_drop
        refine ⟨hard, rfl, ?_⟩
        rw [encodeSaveBatch, encodeHardState_decodeHardState read, frames, length,
          le_word (by rw [List.length_take, List.length_drop]; omega), List.append_assoc, ← parts,
          List.take_append_drop, List.take_append_drop]

/-- The codec of a save batch: decoding undoes encoding, encoding undoes a decoding that
accepts, and decoding never indexes out of range. -/
theorem saveBatch_codec :
    (∀ hard entries, HardWords hard → (∀ e ∈ entries, EntryWords e) → entryBytes entries < 2 ^ 32 →
      decodeSaveBatch (encodeSaveBatch hard entries) = .ok (some hard, entries, none)) ∧
    (∀ batch hd ents, decodeSaveBatch batch = .ok (hd, ents, none) →
      ∃ hard, hd = some hard ∧ encodeSaveBatch hard ents = batch) ∧
    (∀ batch, ∃ out, decodeSaveBatch batch = .ok out) :=
  ⟨decodeSaveBatch_encodeSaveBatch, fun _ _ _ => encodeSaveBatch_decodeSaveBatch,
    decodeSaveBatch_total⟩

theorem saveBatch_codec_two_entries :
    decodeSaveBatch (encodeSaveBatch ⟨3, 1, 2⟩ [⟨1, 2, [7, 8]⟩, ⟨2, 3, []⟩]) =
      .ok (some ⟨3, 1, 2⟩, [⟨1, 2, [7, 8]⟩, ⟨2, 3, []⟩], none) :=
  saveBatch_codec.1 ⟨3, 1, 2⟩ [⟨1, 2, [7, 8]⟩, ⟨2, 3, []⟩] (by decide) (by decide) (by decide)

end Codec

end Kvgo

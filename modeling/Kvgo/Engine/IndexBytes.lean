import Kvgo.Lib.Slices
import Kvgo.Engine.Shard

/-! The bytes of the index file (`wal.go`): the records that `encodeInto` writes into the buffer
of the group committer, and the loop of `readIndex`, which stops at a torn record and truncates
the file there. -/

namespace Kvgo

open Words Slices

namespace Engine

def walIndexHeaderBytes : Nat := 16

def walIndexLen (klen : Nat) : Nat := walIndexHeaderBytes + klen

/-- `encodeInto`; `none` is a slice out of range. -/
def encodeInto (dst : Bytes) (key : Bytes) (vsize voffset : Nat) : Option Bytes := do
  let dst ← put dst 0 (le 4 key.length)
  let dst ← put dst 4 (le 4 vsize)
  let dst ← put dst 8 (le 8 voffset)
  put dst walIndexHeaderBytes key

/-- The loop of `readIndex` over what is left of the file: the records it hands to the handler, and
the position at which it truncates a torn end. The position is a sum of 32-bit words. -/
def readIndexFrom : Nat → Bytes → Nat → List IndexEntry × Option Nat
  | 0, _, _ => ([], none)
  | fuel + 1, rest, position =>
    if rest = [] then ([], none)
    else if rest.length < walIndexHeaderBytes then ([], some position)
    else
      let klen := ofLE (rest.take 4)
      let vlen := ofLE ((rest.drop 4).take 4)
      let offset := ofLE ((rest.drop 8).take 8)
      let body := rest.drop walIndexHeaderBytes
      if body.length < klen then ([], some position)
      else
        let (entries, cut) := readIndexFrom fuel (body.drop klen)
          (position + (walIndexHeaderBytes + klen) % 2 ^ 32)
        (⟨body.take klen, vlen, offset⟩ :: entries, cut)

def readIndex (file : Bytes) : List IndexEntry × Option Nat := readIndexFrom (file.length + 1) file 0

/-- `newShard` and `replay` on the two files, and the index file they leave; `none` is the
`ErrCorruption` that `replay` passes on. -/
def openShard (index values : Bytes) : Option Shard × Bytes :=
  match readIndex index with
  | (entries, none) => (some (Shard.reopen entries values), index)
  | (_, some position) => (none, index.take position)

/-! The encoding as a list of bytes. -/

def entryBytes (ie : IndexEntry) : Bytes :=
  le 4 ie.key.length ++ (le 4 ie.valueSize ++ (le 8 ie.valueOffset ++ ie.key))

def indexBytes (entries : List IndexEntry) : Bytes := (entries.map entryBytes).flatten

structure Fits (ie : IndexEntry) : Prop where
  key : ie.key.length < 2 ^ 32
  size : ie.valueSize < 2 ^ 32
  offset : ie.valueOffset < 2 ^ 64

theorem entryBytes_length (ie : IndexEntry) : (entryBytes ie).length = walIndexLen ie.key.length := by
  simp only [entryBytes, List.length_append, le_length, walIndexLen, walIndexHeaderBytes]
  omega

@[simp] theorem indexBytes_nil : indexBytes [] = [] := rfl

@[simp] theorem indexBytes_cons (ie : IndexEntry) (rest : List IndexEntry) :
    indexBytes (ie :: rest) = entryBytes ie ++ indexBytes rest := rfl

@[simp] theorem indexBytes_append (first second : List IndexEntry) :
    indexBytes (first ++ second) = indexBytes first ++ indexBytes second := by
  simp [indexBytes]

/-- What the record holds is what `encodeEntry` keeps of the arguments. -/
theorem entryBytes_encodeEntry (key : Bytes) (vsize voffset : Nat) :
    entryBytes (encodeEntry key vsize voffset) =
      le 4 key.length ++ (le 4 vsize ++ (le 8 voffset ++ key)) := by
  have size := le_mod 4 vsize
  have offset := le_mod 8 voffset
  norm_num at size offset
  simp [entryBytes, encodeEntry, size, offset]

theorem encodeBatch_words (offset : Nat) (batch : List WriteRequest) :
    ∀ ie ∈ Shard.encodeBatch offset batch, ie.valueSize < 2 ^ 32 ∧ ie.valueOffset < 2 ^ 64 := by
  induction batch generalizing offset with
  | nil => simp [Shard.encodeBatch]
  | cons r rest ih =>
    intro ie inside
    rcases List.mem_cons.mp inside with rfl | later
    · exact ⟨Nat.mod_lt _ (by norm_num), Nat.mod_lt _ (by norm_num)⟩
    · exact ih _ ie later

theorem encodeBatch_fits {offset : Nat} {batch : List WriteRequest}
    (narrow : ∀ r ∈ batch, r.key.length < 2 ^ 32) : ∀ ie ∈ Shard.encodeBatch offset batch, Fits ie := by
  induction batch generalizing offset with
  | nil => simp [Shard.encodeBatch]
  | cons r rest ih =>
    intro ie inside
    rcases List.mem_cons.mp inside with rfl | later
    · exact ⟨narrow r (by simp), Nat.mod_lt _ (by norm_num), Nat.mod_lt _ (by norm_num)⟩
    · exact ih (fun q waits => narrow q (List.mem_cons_of_mem _ waits)) ie later

theorem encodeInto_eq {dst : Bytes} (key : Bytes) (vsize voffset : Nat)
    (room : walIndexLen key.length ≤ dst.length) :
    encodeInto dst key vsize voffset =
      some (entryBytes (encodeEntry key vsize voffset) ++ dst.drop (walIndexLen key.length)) := by
  rw [walIndexLen, walIndexHeaderBytes] at room
  have first : put dst 0 (le 4 key.length) = some (le 4 key.length ++ dst.drop 4) := by
    have front := put_append (show 0 = ([] : Bytes).length from rfl) (show (le 4 key.length).length ≤ dst.length by
      rw [le_length]; omega)
    rwa [List.nil_append, List.nil_append, le_length] at front
  simp only [encodeInto, first, Option.bind_eq_bind, Option.bind_some]
  rw [put_append (by rw [le_length]) (by rw [le_length, List.length_drop]; omega),
    Option.bind_some, put_append (by simp) (by simp; omega), Option.bind_some,
    put_append (by simp [walIndexHeaderBytes]) (by simp; omega), entryBytes_encodeEntry]
  simp only [le_length, List.drop_drop, List.append_assoc, walIndexLen, walIndexHeaderBytes]

/-! Reading back. -/

/-- The header of a record and what follows it. -/
theorem entryBytes_fields (ie : IndexEntry) (rest : Bytes) :
    (entryBytes ie ++ rest).take 4 = le 4 ie.key.length ∧
      ((entryBytes ie ++ rest).drop 4).take 4 = le 4 ie.valueSize ∧
      ((entryBytes ie ++ rest).drop 8).take 8 = le 8 ie.valueOffset ∧
      (entryBytes ie ++ rest).drop 16 = ie.key ++ rest := by
  simp only [entryBytes, List.append_assoc]
  have afterKlen : (le 4 ie.key.length ++ (le 4 ie.valueSize ++ (le 8 ie.valueOffset ++ (ie.key ++ rest)))).drop
      4 = le 4 ie.valueSize ++ (le 8 ie.valueOffset ++ (ie.key ++ rest)) := List.drop_left' (le_length 4 _)
  have afterSize : (le 4 ie.key.length ++ (le 4 ie.valueSize ++ (le 8 ie.valueOffset ++ (ie.key ++ rest)))).drop
      (4 + 4) = le 8 ie.valueOffset ++ (ie.key ++ rest) := by
    rw [← List.drop_drop, afterKlen, List.drop_left' (le_length 4 _)]
  have afterOffset : (le 4 ie.key.length ++ (le 4 ie.valueSize ++ (le 8 ie.valueOffset ++
      (ie.key ++ rest)))).drop (8 + 8) = ie.key ++ rest := by
    rw [← List.drop_drop, afterSize, List.drop_left' (le_length 8 _)]
  exact ⟨List.take_left' (le_length 4 _), by rw [afterKlen, List.take_left' (le_length 4 _)],
    by rw [afterSize, List.take_left' (le_length 8 _)], afterOffset⟩

/-- One round of the loop on a record that is there in full. -/
theorem readIndexFrom_entry {ie : IndexEntry} (fits : Fits ie) (fuel : Nat) (rest : Bytes) (position : Nat) :
    readIndexFrom (fuel + 1) (entryBytes ie ++ rest) position =
      (ie :: (readIndexFrom fuel rest (position + walIndexLen ie.key.length % 2 ^ 32)).1,
        (readIndexFrom fuel rest (position + walIndexLen ie.key.length % 2 ^ 32)).2) := by
  obtain ⟨first, second, third, body⟩ := entryBytes_fields ie rest
  have klen : ofLE (le 4 ie.key.length) = ie.key.length := ofLE_le 4 _ (by have := fits.key; omega)
  have vlen : ofLE (le 4 ie.valueSize) = ie.valueSize := ofLE_le 4 _ (by have := fits.size; omega)
  have offset : ofLE (le 8 ie.valueOffset) = ie.valueOffset := ofLE_le 8 _ (by have := fits.offset; omega)
  have long : 16 ≤ (entryBytes ie ++ rest).length := by
    rw [List.length_append, entryBytes_length, walIndexLen, walIndexHeaderBytes]
    omega
  have some : entryBytes ie ++ rest ≠ [] := List.ne_nil_of_length_pos (by omega)
  rw [readIndexFrom, if_neg some, walIndexHeaderBytes, if_neg (by omega)]
  simp only [first, second, third, body, klen, vlen, offset]
  rw [if_neg (by rw [List.length_append]; omega), List.drop_left, List.take_left]
  rfl

/-- More fuel than bytes does not change the outcome. -/
theorem readIndexFrom_fuel {fuel more : Nat} {rest : Bytes} (enough : rest.length < fuel)
    (also : rest.length < more) (position : Nat) :
    readIndexFrom fuel rest position = readIndexFrom more rest position := by
  induction fuel generalizing more rest position with
  | zero => omega
  | succ fuel ih =>
    cases more with
    | zero => omega
    | succ more =>
      simp only [readIndexFrom]
      by_cases none : rest = []
      · rw [if_pos none, if_pos none]
      rw [if_neg none, if_neg none]
      by_cases short : rest.length < walIndexHeaderBytes
      · rw [if_pos short, if_pos short]
      rw [if_neg short, if_neg short]
      rw [walIndexHeaderBytes] at short
      have less : ((rest.drop walIndexHeaderBytes).drop (ofLE (rest.take 4))).length < rest.length := by
        rw [List.length_drop, List.length_drop, walIndexHeaderBytes]
        omega
      have same (position : Nat) :
          readIndexFrom fuel ((rest.drop walIndexHeaderBytes).drop (ofLE (rest.take 4))) position =
            readIndexFrom more ((rest.drop walIndexHeaderBytes).drop (ofLE (rest.take 4))) position :=
        ih (by omega) (by omega) position
      rw [same]

theorem readIndexFrom_append {entries : List IndexEntry} (fits : ∀ ie ∈ entries, Fits ie) {fuel : Nat}
    {rest : Bytes} (enough : (indexBytes entries ++ rest).length < fuel) (position : Nat) :
    ∃ position', readIndexFrom fuel (indexBytes entries ++ rest) position =
      (entries ++ (readIndexFrom (rest.length + 1) rest position').1,
        (readIndexFrom (rest.length + 1) rest position').2) := by
  induction entries generalizing fuel position with
  | nil =>
    refine ⟨position, ?_⟩
    rw [indexBytes_nil, List.nil_append] at enough ⊢
    rw [readIndexFrom_fuel enough (Nat.lt_succ_self _), List.nil_append]
  | cons ie entries ih =>
    rw [indexBytes_cons, List.append_assoc] at enough ⊢
    cases fuel with
    | zero => omega
    | succ fuel =>
      rw [List.length_append, entryBytes_length, walIndexLen, walIndexHeaderBytes] at enough
      have short : (indexBytes entries ++ rest).length < fuel := by omega
      obtain ⟨position', later⟩ := ih (fun other inside => fits other (List.mem_cons_of_mem _ inside)) short
        (position + walIndexLen ie.key.length % 2 ^ 32)
      exact ⟨position', by rw [readIndexFrom_entry (fits ie (by simp)), later, List.cons_append]⟩

/-- A record of which the end is missing. -/
theorem readIndexFrom_torn {ie : IndexEntry} (fits : Fits ie) {torn missing : Bytes}
    (bytes : torn ++ missing = entryBytes ie) (cut : missing ≠ []) (fuel position : Nat) :
    readIndexFrom (fuel + 1) torn position = ([], if torn = [] then none else some position) := by
  rw [readIndexFrom]
  by_cases none : torn = []
  · rw [if_pos none, if_pos none]
  rw [if_neg none, if_neg none]
  by_cases short : torn.length < walIndexHeaderBytes
  · rw [if_pos short]
  rw [if_neg short]
  rw [walIndexHeaderBytes] at short ⊢
  have length := congrArg List.length bytes
  rw [List.length_append, entryBytes_length, walIndexLen, walIndexHeaderBytes] at length
  have some : missing.length ≠ 0 := fun empty => cut (List.length_eq_zero_iff.mp empty)
  -- the header is there, so the length of the key is known
  have klen : ofLE (torn.take 4) = ie.key.length := by
    have field := (entryBytes_fields ie []).1
    rw [List.append_nil, ← bytes, List.take_append_of_le_length (by omega)] at field
    rw [field, ofLE_le 4 _ (by have := fits.key; omega)]
  dsimp only
  rw [klen, if_pos (by rw [List.length_drop]; omega)]

def complete : List IndexEntry → Nat → List IndexEntry
  | [], _ => []
  | ie :: rest, n =>
    if (entryBytes ie).length ≤ n then ie :: complete rest (n - (entryBytes ie).length) else []

theorem complete_isPrefix (entries : List IndexEntry) (n : Nat) : complete entries n <+: entries := by
  induction entries generalizing n with
  | nil => exact List.prefix_rfl
  | cons ie rest ih =>
    rw [complete]
    split
    · exact List.cons_prefix_cons.mpr ⟨rfl, ih _⟩
    · exact List.nil_prefix

theorem complete_length (entries : List IndexEntry) (k : Nat) :
    complete entries (indexBytes (entries.take k)).length = entries.take k := by
  induction entries generalizing k with
  | nil => simp [complete]
  | cons ie rest ih =>
    cases k with
    | zero =>
      have header : ¬(entryBytes ie).length ≤ 0 := by
        rw [entryBytes_length, walIndexLen, walIndexHeaderBytes]
        omega
      rw [List.take_zero, indexBytes_nil, List.length_nil, complete, if_neg header]
    | succ k =>
      rw [List.take_succ_cons, indexBytes_cons, List.length_append, complete, if_pos (by omega),
        Nat.add_sub_cancel_left, ih]

/-- Of an encoding cut anywhere the records that are there in full are read, and the loop ends
without complaint only if there was nothing else. -/
theorem readIndexFrom_take {entries : List IndexEntry} (fits : ∀ ie ∈ entries, Fits ie) (n : Nat) {fuel : Nat}
    (enough : ((indexBytes entries).take n).length < fuel) (position : Nat) :
    (readIndexFrom fuel ((indexBytes entries).take n) position).1 = complete entries n ∧
      ((readIndexFrom fuel ((indexBytes entries).take n) position).2 = none →
        (indexBytes entries).take n = indexBytes (complete entries n)) := by
  induction entries generalizing n fuel position with
  | nil =>
    cases fuel with
    | zero => omega
    | succ fuel => simp [readIndexFrom, complete]
  | cons ie rest ih =>
    cases fuel with
    | zero => omega
    | succ fuel =>
      rw [indexBytes_cons, complete]
      by_cases whole : (entryBytes ie).length ≤ n
      · rw [indexBytes_cons, List.take_append, List.take_of_length_le whole, List.length_append,
          entryBytes_length, walIndexLen, walIndexHeaderBytes] at enough
        rw [if_pos whole, List.take_append, List.take_of_length_le whole,
          readIndexFrom_entry (fits ie (by simp)), indexBytes_cons]
        have short : ((indexBytes rest).take (n - (entryBytes ie).length)).length < fuel := by
          rw [entryBytes_length, walIndexLen, walIndexHeaderBytes]
          omega
        obtain ⟨read, clean⟩ := ih (fun other inside => fits other (List.mem_cons_of_mem _ inside)) _ short
          (position + walIndexLen ie.key.length % 2 ^ 32)
        exact ⟨by rw [read], fun done => by rw [clean done]⟩
      · have short : n ≤ (entryBytes ie).length := by omega
        have missing : (entryBytes ie).drop n ≠ [] := by
          rw [Ne, List.drop_eq_nil_iff]
          omega
        rw [if_neg whole, List.take_append_of_le_length short,
          readIndexFrom_torn (fits ie (by simp)) (List.take_append_drop n _) missing]
        refine ⟨rfl, fun done => ?_⟩
        rw [indexBytes_nil]
        by_contra torn
        rw [if_neg torn] at done
        cases done

theorem readIndex_take {entries : List IndexEntry} (fits : ∀ ie ∈ entries, Fits ie) (n : Nat) :
    (readIndex ((indexBytes entries).take n)).1 = complete entries n ∧
      ((readIndex ((indexBytes entries).take n)).2 = none →
        (indexBytes entries).take n = indexBytes (complete entries n)) :=
  readIndexFrom_take fits n (Nat.lt_succ_self _) 0

theorem readIndex_indexBytes {entries : List IndexEntry} (fits : ∀ ie ∈ entries, Fits ie) :
    readIndex (indexBytes entries) = (entries, none) := by
  have enough : (indexBytes entries ++ []).length < (indexBytes entries).length + 1 := by
    rw [List.append_nil]
    exact Nat.lt_succ_self _
  obtain ⟨position, all⟩ := readIndexFrom_append fits enough 0
  rw [List.append_nil] at all
  rw [readIndex, all]
  simp [readIndexFrom]

/-- What is read comes from words of four bytes. -/
theorem readIndexFrom_words (fuel : Nat) (rest : Bytes) (position : Nat) :
    ∀ ie ∈ (readIndexFrom fuel rest position).1, ie.key.length < 2 ^ 32 ∧ ie.valueSize < 2 ^ 32 := by
  have word (bytes : Bytes) : ofLE (bytes.take 4) < 2 ^ 32 := by
    have small := ofLE_lt (bytes.take 4)
    have width : 256 ^ (bytes.take 4).length ≤ 256 ^ 4 :=
      Nat.pow_le_pow_right (by norm_num) (List.length_take_le _ _)
    omega
  induction fuel generalizing rest position with
  | zero => simp [readIndexFrom]
  | succ fuel ih =>
    rw [readIndexFrom]
    split
    · simp
    split
    · simp
    dsimp only
    split
    · simp
    intro ie inside
    rcases List.mem_cons.mp inside with rfl | later
    · have taken := List.length_take_le (ofLE (rest.take 4)) (rest.drop walIndexHeaderBytes)
      exact ⟨Nat.lt_of_le_of_lt taken (word rest), word _⟩
    · exact ih _ _ ie later

theorem readIndex_words (file : Bytes) :
    ∀ ie ∈ (readIndex file).1, ie.key.length < 2 ^ 32 ∧ ie.valueSize < 2 ^ 32 :=
  readIndexFrom_words _ _ _

/-! Opening. -/

theorem openShard_indexBytes {entries : List IndexEntry} (fits : ∀ ie ∈ entries, Fits ie) (values : Bytes) :
    openShard (indexBytes entries) values = (some (Shard.reopen entries values), indexBytes entries) := by
  rw [openShard, readIndex_indexBytes fits]

theorem openShard_some {index values left : Bytes} {s : Shard} (opened : openShard index values = (some s, left)) :
    left = index ∧ (readIndex index).1 = s.indexFile := by
  unfold openShard at opened
  split at opened
  · next entries read =>
    obtain ⟨same, rfl⟩ := Prod.mk.inj opened
    obtain rfl := Option.some.inj same
    exact ⟨rfl, by rw [read, (Shard.reopen_replayed entries values).index]⟩
  · next position read =>
    cases (Prod.mk.inj opened).1

end Engine

end Kvgo

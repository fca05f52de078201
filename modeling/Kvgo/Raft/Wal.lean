import Kvgo.Lib.Decimal
import Kvgo.Lib.Words
import Kvgo.Lib.Runs
import Kvgo.Raft.Durable

/-! The bytes of the write-ahead log (`wal.go`, `segment.go`): frames in segment files, the
names of the files, and reading them back after the last file was cut anywhere. -/

namespace Kvgo

open Words Decimal

namespace Wal

/-! ### One file -/

inductive ReadError where
  | eof
  | tailCorruption
  deriving DecidableEq, Repr

def frame (batch : Bytes) : Bytes := le frameHeaderSize batch.length ++ batch

/-- `read` at a position; `size` is what the handle takes for the length of the file. -/
def read (file : Bytes) (size pos : Nat) : Except ReadError Bytes :=
  let rest := file.drop pos
  -- io.ReadFull tells a file that ends here from one that ends inside the header
  if rest = [] then .error .eof
  else if rest.length < frameHeaderSize then .error .tailCorruption
  else
    let len := ofLE (rest.take frameHeaderSize)
    if size < pos + frameHeaderSize + len then .error .tailCorruption
    else if rest.length < frameHeaderSize + len then .error .tailCorruption
    else .ok ((rest.drop frameHeaderSize).take len)

theorem read_advances {file batch : Bytes} {size pos : Nat} (ok : read file size pos = .ok batch) :
    pos < file.length := by
  by_contra beyond
  unfold read at ok
  rw [List.drop_eq_nil_of_le (by omega)] at ok
  cases ok

inductive SegmentEnd where
  | done
  | torn (goodPos : Nat)
  | failed
  deriving DecidableEq, Repr

/-- The batches handed to `fn`, and how the loop ends; `fn` answers whether it took the batch. -/
def readSegmentFrames (fn : Bytes → Bool) (file : Bytes) (size pos : Nat) : List Bytes × SegmentEnd :=
  match _ok : read file size pos with
  | .error .eof => ([], .done)
  | .error .tailCorruption => ([], .torn pos)
  | .ok batch =>
    if fn batch then
      let rest := readSegmentFrames fn file size (pos + (frameHeaderSize + batch.length))
      (batch :: rest.1, rest.2)
    else ([batch], .failed)
termination_by file.length - pos
decreasing_by
  have := read_advances _ok
  simp only [frameHeaderSize]
  omega

def frames (batches : List Bytes) : Bytes := batches.flatMap frame

def survivors : Nat → List Bytes → List Bytes
  | _, [] => []
  | k, batch :: rest =>
    if (frame batch).length ≤ k then batch :: survivors (k - (frame batch).length) rest else []

def Small (batches : List Bytes) : Prop := ∀ batch ∈ batches, batch.length < 2 ^ 32

section File

variable {batch : Bytes} {batches : List Bytes} {size : Nat}

@[simp] theorem frame_length (batch : Bytes) : (frame batch).length = frameHeaderSize + batch.length := by
  simp [frame]

@[simp] theorem frames_nil : frames [] = [] := rfl

@[simp] theorem frames_cons (batch : Bytes) (rest : List Bytes) :
    frames (batch :: rest) = frame batch ++ frames rest := by simp [frames]

theorem frames_append (front back : List Bytes) : frames (front ++ back) = frames front ++ frames back := by
  simp [frames]

theorem header_frame (small : batch.length < 2 ^ 32) (rest : Bytes) :
    ofLE ((frame batch ++ rest).take frameHeaderSize) = batch.length := by
  rw [frame, List.append_assoc, List.take_left' (by simp)]
  exact ofLE_le _ _ (by simpa [frameHeaderSize] using small)

theorem read_end (file : Bytes) (size : Nat) : read file size file.length = .error .eof := by
  unfold read
  rw [List.drop_length, if_pos rfl]

theorem read_frame (small : batch.length < 2 ^ 32) (front rest : Bytes)
    (enough : (front ++ (frame batch ++ rest)).length ≤ size) :
    read (front ++ (frame batch ++ rest)) size front.length = .ok batch := by
  rw [List.length_append, List.length_append, frame_length] at enough
  unfold read
  rw [List.drop_left]
  dsimp only
  rw [header_frame small]
  have long : (frame batch ++ rest).length = frameHeaderSize + batch.length + rest.length := by simp
  have some : frame batch ++ rest ≠ [] := by
    intro none
    rw [none] at long
    simp [frameHeaderSize] at long
    omega
  rw [if_neg some, if_neg (by omega), if_neg (by omega), if_neg (by omega), frame, List.append_assoc,
    List.drop_left' (by simp), List.take_left]

/-- A frame of which only a part is there. -/
theorem read_torn (small : batch.length < 2 ^ 32) (front rest : Bytes) {k : Nat} (positive : 0 < k)
    (short : k < (frame batch).length) :
    read (front ++ (frame batch ++ rest).take k) size front.length = .error .tailCorruption := by
  unfold read
  rw [List.drop_left]
  dsimp only
  have long : ((frame batch ++ rest).take k).length = k := by
    rw [List.length_take, List.length_append]
    omega
  have some : (frame batch ++ rest).take k ≠ [] := by
    intro none
    rw [none, List.length_nil] at long
    omega
  rw [if_neg some, long]
  split
  · rfl
  · next header =>
    rw [List.take_take, Nat.min_eq_left (by omega), header_frame small]
    rw [frame_length] at short
    rw [if_pos short]
    exact ite_self _

section Loop

variable {fn : Bytes → Bool} {file : Bytes} {pos : Nat}

theorem readSegmentFrames_done (ended : read file size pos = .error .eof) :
    readSegmentFrames fn file size pos = ([], .done) := by
  rw [readSegmentFrames]
  split <;> simp_all

theorem readSegmentFrames_torn (ended : read file size pos = .error .tailCorruption) :
    readSegmentFrames fn file size pos = ([], .torn pos) := by
  rw [readSegmentFrames]
  split <;> simp_all

theorem readSegmentFrames_next (ok : read file size pos = .ok batch) (taken : fn batch = true) :
    readSegmentFrames fn file size pos =
      (batch :: (readSegmentFrames fn file size (pos + (frameHeaderSize + batch.length))).1,
        (readSegmentFrames fn file size (pos + (frameHeaderSize + batch.length))).2) := by
  rw [readSegmentFrames]
  split <;> simp_all

end Loop

/-- The loop over a file that was cut delivers the frames that are whole. -/
theorem readSegmentFrames_cut (small : Small batches) (front : Bytes) (k : Nat)
    (enough : (front ++ (frames batches).take k).length ≤ size) :
    readSegmentFrames (fun _ => true) (front ++ (frames batches).take k) size front.length =
      (survivors k batches,
        if (frames (survivors k batches)).length = ((frames batches).take k).length then .done
        else .torn (front.length + (frames (survivors k batches)).length)) := by
  induction batches generalizing front k with
  | nil =>
    rw [frames_nil, List.take_nil, List.append_nil, readSegmentFrames_done (read_end _ _)]
    rfl
  | cons batch rest ih =>
    have fits := small batch (by simp)
    rw [frames_cons] at enough ⊢
    unfold survivors
    split
    · next whole =>
      rw [List.take_append, List.take_of_length_le whole] at enough ⊢
      generalize k - (frame batch).length = left at enough ⊢
      have next := ih (fun b inside => small b (by simp [inside])) (front ++ frame batch) left
        (by simpa using enough)
      rw [List.append_assoc, List.length_append, frame_length] at next
      rw [readSegmentFrames_next (read_frame fits _ _ enough) rfl, next, frames_cons, List.length_append,
        List.length_append, frame_length]
      simp only [Nat.add_left_cancel_iff, Nat.add_assoc]
    · next short =>
      rcases Nat.eq_zero_or_pos k with rfl | positive
      · rw [List.take_zero, List.append_nil, readSegmentFrames_done (read_end _ _)]
        rfl
      · have long : ((frame batch ++ frames rest).take k).length = k := by
          rw [List.length_take, List.length_append]
          omega
        rw [readSegmentFrames_torn (read_torn fits _ _ positive (by omega)), long, frames_nil,
          List.length_nil, if_neg (by omega), Nat.add_zero]

theorem survivors_isPrefix (k : Nat) (batches : List Bytes) : survivors k batches <+: batches := by
  induction batches generalizing k with
  | nil => exact List.prefix_rfl
  | cons batch rest ih =>
    unfold survivors
    split
    · exact List.cons_prefix_cons.mpr ⟨rfl, ih _⟩
    · exact List.nil_prefix

theorem frames_survivors_isPrefix (k : Nat) (batches : List Bytes) :
    frames (survivors k batches) <+: (frames batches).take k := by
  induction batches generalizing k with
  | nil => exact List.nil_prefix
  | cons batch rest ih =>
    unfold survivors
    split
    · next whole =>
      rw [frames_cons, frames_cons, List.take_append, List.take_of_length_le whole]
      exact (List.prefix_append_right_inj _).mpr (ih _)
    · exact List.nil_prefix

theorem survivors_all {k : Nat} (enough : (frames batches).length ≤ k) : survivors k batches = batches := by
  induction batches generalizing k with
  | nil => rfl
  | cons batch rest ih =>
    rw [frames_cons, List.length_append] at enough
    rw [survivors, if_pos (by omega), ih (by omega)]

theorem Small.snoc (small : Small batches) (fits : batch.length < 2 ^ 32) : Small (batches ++ [batch]) := by
  intro b inside
  rcases List.mem_append.mp inside with front | back
  · exact small b front
  · cases List.mem_singleton.mp back
    exact fits

theorem Small.survivors (small : Small batches) (k : Nat) : Small (survivors k batches) :=
  fun batch inside => small batch ((survivors_isPrefix k batches).subset inside)

theorem take_survivors (k : Nat) (batches : List Bytes) :
    ((frames batches).take k).take (frames (survivors k batches)).length = frames (survivors k batches) :=
  (List.prefix_iff_eq_take.mp (frames_survivors_isPrefix k batches)).symm

theorem eq_survivors {k : Nat}
    (whole : (frames (survivors k batches)).length = ((frames batches).take k).length) :
    (frames batches).take k = frames (survivors k batches) :=
  ((frames_survivors_isPrefix k batches).eq_of_length whole).symm

def Boundary (batches : List Bytes) (k : Nat) : Prop := ∃ m, k = (frames (batches.take m)).length

theorem torn_of_not_boundary {k : Nat} (inside : k ≤ (frames batches).length) (off : ¬ Boundary batches k) :
    (frames (survivors k batches)).length ≠ ((frames batches).take k).length := by
  intro whole
  refine off ⟨(survivors k batches).length, ?_⟩
  rw [← List.prefix_iff_eq_take.mp (survivors_isPrefix k batches), whole, List.length_take]
  omega

end File

/-! ### The directory -/

abbrev Name := List Char

def segmentPrefix : Name := ['w', 'a', 'l', '-']

def segmentSuffix : Name := ['.', 'l', 'o', 'g']

def nameWidth (seq : Nat) : Nat := if seq < 10 ^ 8 then 8 else if seq < 10 ^ 9 then 9 else 10

def segmentName (seq : Nat) : Name := segmentPrefix ++ (numeral (nameWidth seq) seq ++ segmentSuffix)

/-- `Sscanf` with `%08d` takes at most eight digits and does not mind what follows them. -/
def parseSegmentSeq (name : Name) : Option Nat :=
  if segmentPrefix.isPrefixOf name && segmentSuffix.isSuffixOf name then
    let numStr := (name.drop 4).take (name.length - 8)
    let digits := (numStr.take 8).takeWhile Char.isDigit
    if digits = [] then none else some (value digits)
  else none

structure Dir where
  names : List Name := []
  content : Name → Bytes := fun _ => []

def Dir.openFile (d : Dir) (name : Name) : Dir :=
  if name ∈ d.names then d
  else { names := d.names ++ [name], content := Function.update d.content name [] }

def Dir.listSegments (d : Dir) : List Name :=
  (d.names.filter fun name => (parseSegmentSeq name).isSome).mergeSort fun a b => !decide (b < a)

structure SegmentedWAL where
  dir : Dir
  segments : List Name
  current : Name
  /-- The size that the handle of the current segment counts. -/
  size : Nat

inductive WALError where
  | notExist
  | corruptionInSealed (name : Name)
  | fromFn
  deriving DecidableEq, Repr

namespace SegmentedWAL

/-- Open a segment as the current one, the last of `segments`. -/
def newWAL (d : Dir) (segments : List Name) (name : Name) : SegmentedWAL where
  dir := d.openFile name
  segments := segments
  current := name
  size := ((d.openFile name).content name).length

def newSegmentedWAL (d : Dir) : SegmentedWAL :=
  match d.listSegments.getLast? with
  | none => newWAL d [segmentName 0] (segmentName 0)
  | some last => newWAL d d.listSegments last

def write (sw : SegmentedWAL) (batch : Bytes) : SegmentedWAL where
  dir := { sw.dir with
    content := Function.update sw.dir.content sw.current (sw.dir.content sw.current ++ frame batch) }
  segments := sw.segments
  current := sw.current
  size := sw.size + (frame batch).length

def cut (sw : SegmentedWAL) : SegmentedWAL :=
  let lastSeq := (sw.segments.getLast?.bind parseSegmentSeq).getD 0
  let name := segmentName (lastSeq + 1)
  newWAL sw.dir (sw.segments ++ [name]) name

def truncate (sw : SegmentedWAL) (offset : Nat) : SegmentedWAL where
  dir := { sw.dir with
    content := Function.update sw.dir.content sw.current ((sw.dir.content sw.current).take offset) }
  segments := sw.segments
  current := sw.current
  size := offset

structure ReadResult where
  delivered : List (Name × Bytes)
  error : Option WALError
  wal : SegmentedWAL

/-- The loop of `readAll` from a segment on. The last one is read through the handle that
writes, with the size it counts; the others are opened for reading. -/
def readFrom (fn : Name → Bytes → Bool) (sw : SegmentedWAL) : List Name → ReadResult
  | [] => ⟨[], none, sw⟩
  | [name] =>
    let got := readSegmentFrames (fn name) (sw.dir.content sw.current) sw.size 0
    match got.2 with
    | .done => ⟨got.1.map (name, ·), none, sw⟩
    | .torn goodPos => ⟨got.1.map (name, ·), none, sw.truncate goodPos⟩
    | .failed => ⟨got.1.map (name, ·), some .fromFn, sw⟩
  | name :: rest =>
    if name ∈ sw.dir.names then
      let file := sw.dir.content name
      let got := readSegmentFrames (fn name) file file.length 0
      match got.2 with
      | .done =>
        let more := readFrom fn sw rest
        { more with delivered := got.1.map (name, ·) ++ more.delivered }
      | .torn _ => ⟨got.1.map (name, ·), some (.corruptionInSealed name), sw⟩
      | .failed => ⟨got.1.map (name, ·), some .fromFn, sw⟩
    else ⟨[], some .notExist, sw⟩

def readAll (sw : SegmentedWAL) : ReadResult := readFrom (fun _ _ => true) sw sw.segments

def ReadResult.batches (r : ReadResult) : List Bytes := r.delivered.map Prod.snd

end SegmentedWAL

theorem nameWidth_eq (seq : Nat) : nameWidth seq = 8 + (nameWidth seq - 8) := by
  unfold nameWidth
  split
  · rfl
  · split <;> rfl

/-- Of a longer name only the first eight digits are read. -/
theorem parseSegmentSeq_eq (seq : Nat) :
    parseSegmentSeq (segmentName seq) = some (seq / 10 ^ (nameWidth seq - 8) % 10 ^ 8) := by
  have head : segmentPrefix.isPrefixOf (segmentName seq) = true :=
    List.isPrefixOf_iff_prefix.mpr (List.prefix_append _ _)
  have tail : segmentSuffix.isSuffixOf (segmentName seq) = true :=
    List.isSuffixOf_iff_suffix.mpr ((List.suffix_append _ _).trans (List.suffix_append _ _))
  have size : (segmentName seq).length - 8 = nameWidth seq := by
    simp [segmentName, segmentPrefix, segmentSuffix]
  have middle : (segmentName seq).drop 4 = numeral (nameWidth seq) seq ++ segmentSuffix := List.drop_left' rfl
  have front : (numeral (nameWidth seq) seq).take 8 = numeral 8 (seq / 10 ^ (nameWidth seq - 8)) := by
    rw [nameWidth_eq seq, numeral_add, List.take_left' (by simp), Nat.add_sub_cancel_left]
  have digits : (numeral 8 (seq / 10 ^ (nameWidth seq - 8))).takeWhile Char.isDigit =
      numeral 8 (seq / 10 ^ (nameWidth seq - 8)) := List.takeWhile_eq_self_iff.mpr (numeral_isDigit 8 _)
  have some : numeral 8 (seq / 10 ^ (nameWidth seq - 8)) ≠ [] := by
    intro none
    have := congrArg List.length none
    simp at this
  unfold parseSegmentSeq
  rw [if_pos (by rw [head, tail]; rfl), size, middle]
  dsimp only
  rw [List.take_left' (by simp), front, digits, if_neg some, value_numeral]

theorem parseSegmentSeq_segmentName {seq : Nat} (bound : seq < 10 ^ 8) :
    parseSegmentSeq (segmentName seq) = some seq := by
  have width : nameWidth seq = 8 := if_pos bound
  rw [parseSegmentSeq_eq, width, Nat.sub_self, Nat.pow_zero, Nat.div_one, Nat.mod_eq_of_lt bound]

theorem segmentName_lt {a b : Nat} (less : a < b) (bound : b < 10 ^ 8) : segmentName a < segmentName b := by
  have width : ∀ seq, seq < 10 ^ 8 → nameWidth seq = 8 := fun seq small => if_pos small
  unfold segmentName
  rw [width a (less.trans bound), width b bound]
  exact lex_append_left (lex_append (numeral_lt less bound) (by simp) _ _) _

theorem segmentName_ne {a b : Nat} (less : a < b) (bound : b ≤ 10 ^ 8) : segmentName a ≠ segmentName b := by
  intro same
  rcases Nat.lt_or_eq_of_le bound with small | rfl
  · have one := parseSegmentSeq_segmentName (less.trans small)
    rw [same, parseSegmentSeq_segmentName small] at one
    cases one
    omega
  · have width : nameWidth a = 8 := if_pos less
    have wide : nameWidth (10 ^ 8) = 9 := by decide
    have one := congrArg List.length same
    simp only [segmentName, width, wide, List.length_append, numeral_length] at one
    omega

theorem Dir.listSegments_rising {d : Dir} {seqs : List Nat}
    (names : (d.names.filter fun name => (parseSegmentSeq name).isSome) = seqs.map segmentName)
    (rising : seqs.Pairwise (· < ·)) (few : ∀ seq ∈ seqs, seq < 10 ^ 8) : d.listSegments = seqs.map segmentName := by
  unfold Dir.listSegments
  rw [names]
  apply List.mergeSort_of_pairwise
  rw [List.pairwise_map]
  refine rising.imp_of_mem fun {a b} _ high less => ?_
  have order := segmentName_lt less (few b high)
  simpa using le_of_lt order

theorem SegmentedWAL.newSegmentedWAL_last {d : Dir} {last : Name} (final : d.listSegments.getLast? = some last)
    (there : last ∈ d.names) :
    newSegmentedWAL d = ⟨d, d.listSegments, last, (d.content last).length⟩ := by
  have opened : d.openFile last = d := if_pos there
  have made : newSegmentedWAL d = newWAL d d.listSegments last := by
    unfold newSegmentedWAL
    rw [final]
  rw [made, newWAL, opened]

theorem parseSegmentSeq_wide : parseSegmentSeq (segmentName (10 ^ 8)) = some (10 ^ 7) := by decide +kernel

/-! ### What the directory holds -/

/-- The segments from 0 on with these contents, the last of them current. -/
structure Laid (sw : SegmentedWAL) (closed : List Bytes) (last : Bytes) : Prop where
  segments : sw.segments = (List.range (closed.length + 1)).map segmentName
  names : sw.dir.names = sw.segments
  files : ∀ i file, closed[i]? = some file → sw.dir.content (segmentName i) = file
  tail : sw.dir.content (segmentName closed.length) = last
  current : sw.current = segmentName closed.length
  size : last.length ≤ sw.size

namespace Laid

open SegmentedWAL

variable {sw sw' : SegmentedWAL} {closed : List Bytes} {last : Bytes}

theorem mem_names (laid : Laid sw closed last) {i : Nat} (bound : i ≤ closed.length) :
    segmentName i ∈ sw.dir.names := by
  rw [laid.names, laid.segments]
  exact List.mem_map_of_mem (List.mem_range.mpr (by omega))

theorem getLast_segments (laid : Laid sw closed last) :
    sw.segments.getLast? = some (segmentName closed.length) := by
  rw [laid.segments, List.range_succ, List.map_append, List.map_singleton, List.getLast?_concat]

theorem content_current (laid : Laid sw closed last) : sw.dir.content sw.current = last := by
  rw [laid.current, laid.tail]

theorem rewrite (laid : Laid sw closed last) (few : closed.length ≤ 10 ^ 8) {file : Bytes}
    (segments : sw'.segments = sw.segments) (names : sw'.dir.names = sw.dir.names)
    (current : sw'.current = sw.current)
    (content : sw'.dir.content = Function.update sw.dir.content sw.current file)
    (size : file.length ≤ sw'.size) : Laid sw' closed file where
  segments := segments.trans laid.segments
  names := by rw [names, laid.names, segments]
  files i file here := by
    have low := (List.getElem?_eq_some_iff.mp here).1
    rw [content, laid.current, Function.update_of_ne (segmentName_ne low few)]
    exact laid.files i file here
  tail := by rw [content, laid.current, Function.update_self]
  current := current.trans laid.current
  size := size

theorem write (laid : Laid sw closed last) (few : closed.length ≤ 10 ^ 8) (batch : Bytes) :
    Laid (sw.write batch) closed (last ++ frame batch) := by
  have size := laid.size
  refine laid.rewrite few rfl rfl rfl ?_ ?_
  · simp only [SegmentedWAL.write, laid.content_current]
  · show _ ≤ sw.size + _
    rw [List.length_append]
    omega

theorem truncate (laid : Laid sw closed last) (few : closed.length ≤ 10 ^ 8) (offset : Nat) :
    Laid (sw.truncate offset) closed (last.take offset) := by
  refine laid.rewrite few rfl rfl rfl ?_ (List.length_take_le _ _)
  simp only [SegmentedWAL.truncate, laid.content_current]

theorem cut (laid : Laid sw closed last) (few : closed.length < 10 ^ 8) :
    Laid sw.cut (closed ++ [last]) [] := by
  have fresh : segmentName (closed.length + 1) ∉ sw.dir.names := by
    rw [laid.names, laid.segments]
    intro inside
    obtain ⟨i, low, same⟩ := List.mem_map.mp inside
    exact segmentName_ne (List.mem_range.mp low) (by omega) same
  have made : sw.cut = newWAL sw.dir (sw.segments ++ [segmentName (closed.length + 1)])
      (segmentName (closed.length + 1)) := by
    unfold SegmentedWAL.cut
    rw [laid.getLast_segments, Option.bind_some, parseSegmentSeq_segmentName few, Option.getD_some]
  have opened : sw.dir.openFile (segmentName (closed.length + 1)) = {
      names := sw.dir.names ++ [segmentName (closed.length + 1)]
      content := Function.update sw.dir.content (segmentName (closed.length + 1)) [] } := if_neg fresh
  rw [made]
  unfold newWAL
  rw [opened]
  refine ⟨?_, ?_, fun i file here => ?_, ?_, ?_, Nat.zero_le _⟩
  · show sw.segments ++ _ = _
    rw [List.length_append, List.length_singleton, List.range_succ, List.map_append, laid.segments]
    rfl
  · show sw.dir.names ++ _ = sw.segments ++ _
    rw [laid.names]
  · have low := (List.getElem?_eq_some_iff.mp here).1
    rw [List.length_append, List.length_singleton] at low
    show Function.update _ _ _ _ = _
    rw [Function.update_of_ne (segmentName_ne low (by omega))]
    rcases Nat.lt_or_ge i closed.length with front | back
    · rw [List.getElem?_append_left front] at here
      exact laid.files i file here
    · have ends : i = closed.length := by omega
      subst ends
      rw [List.getElem?_concat_length] at here
      cases here
      exact laid.tail
  · show Function.update _ _ _ (segmentName (closed ++ [last]).length) = _
    rw [List.length_append, List.length_singleton, Function.update_self]
  · show _ = segmentName (closed ++ [last]).length
    rw [List.length_append, List.length_singleton]

theorem listSegments (laid : Laid sw closed last) (few : closed.length < 10 ^ 8) :
    sw.dir.listSegments = sw.segments := by
  have parsed : sw.dir.names.filter (fun name => (parseSegmentSeq name).isSome) = sw.dir.names := by
    rw [List.filter_eq_self, laid.names, laid.segments]
    intro name inside
    obtain ⟨i, low, rfl⟩ := List.mem_map.mp inside
    rw [parseSegmentSeq_segmentName (by have := List.mem_range.mp low; omega)]
    rfl
  rw [laid.segments]
  refine Dir.listSegments_rising (by rw [parsed, laid.names, laid.segments]) List.pairwise_lt_range fun seq inside => ?_
  have := List.mem_range.mp inside
  omega

theorem reopen (laid : Laid sw closed last) (few : closed.length < 10 ^ 8) :
    Laid (newSegmentedWAL sw.dir) closed last := by
  have found := laid.listSegments few
  have final : sw.dir.listSegments.getLast? = some (segmentName closed.length) := by
    rw [found, laid.getLast_segments]
  rw [newSegmentedWAL_last final (laid.mem_names (Nat.le_refl _)), found]
  exact ⟨laid.segments, laid.names, laid.files, laid.tail, rfl, by rw [laid.tail]⟩

end Laid

/-! ### Reading -/

namespace SegmentedWAL

variable {sw : SegmentedWAL}

/-- Whole segments in front of the last one are delivered, and the loop goes on. -/
theorem readFrom_whole (pairs : List (Name × List Bytes)) {rest : List Name} (more : rest ≠ [])
    (whole : ∀ p ∈ pairs, p.1 ∈ sw.dir.names ∧ sw.dir.content p.1 = frames p.2 ∧ Small p.2) :
    (readFrom (fun _ _ => true) sw (pairs.map Prod.fst ++ rest)).batches =
      (pairs.map Prod.snd).flatten ++ (readFrom (fun _ _ => true) sw rest).batches ∧
    (readFrom (fun _ _ => true) sw (pairs.map Prod.fst ++ rest)).error =
      (readFrom (fun _ _ => true) sw rest).error ∧
    (readFrom (fun _ _ => true) sw (pairs.map Prod.fst ++ rest)).wal =
      (readFrom (fun _ _ => true) sw rest).wal := by
  induction pairs with
  | nil => exact ⟨rfl, rfl, rfl⟩
  | cons p pairs ih =>
    obtain ⟨present, content, small⟩ := whole p (by simp)
    obtain ⟨batches, error, wal⟩ := ih fun q inside => whole q (by simp [inside])
    have loop := readSegmentFrames_cut small [] (frames p.2).length
      (show ([] ++ (frames p.2).take _).length ≤ (frames p.2).length by simp)
    rw [List.take_length, survivors_all (Nat.le_refl _), if_pos rfl] at loop
    have here : readFrom (fun _ _ => true) sw (p.1 :: (pairs.map Prod.fst ++ rest)) =
        { readFrom (fun _ _ => true) sw (pairs.map Prod.fst ++ rest) with
          delivered := p.2.map (p.1, ·) ++
            (readFrom (fun _ _ => true) sw (pairs.map Prod.fst ++ rest)).delivered } := by
      rw [readFrom]
      · rw [if_pos present, content]
        simp only [List.nil_append, List.length_nil] at loop
        simp only [loop]
      · simp [more]
    rw [List.map_cons, List.cons_append, here]
    refine ⟨?_, error, wal⟩
    unfold ReadResult.batches at batches ⊢
    simp only [List.map_append, List.map_cons, List.flatten_cons, batches, List.append_assoc]
    simp

theorem readFrom_corrupt {name : Name} {rest : List Name} (more : rest ≠ []) {batches : List Bytes} {k : Nat}
    (present : name ∈ sw.dir.names) (content : sw.dir.content name = (frames batches).take k)
    (small : Small batches) (inside : k ≤ (frames batches).length) (off : ¬ Boundary batches k) :
    (readFrom (fun _ _ => true) sw (name :: rest)).error = some (.corruptionInSealed name) := by
  have loop := readSegmentFrames_cut small [] k
    (show ([] ++ (frames batches).take k).length ≤ ((frames batches).take k).length by simp)
  rw [if_neg (torn_of_not_boundary inside off)] at loop
  rw [readFrom]
  · rw [if_pos present, content]
    simp only [List.nil_append, List.length_nil] at loop
    simp only [loop]
  · simp [more]

/-- The last segment is cut behind its last whole frame, unless it ends there. -/
theorem readFrom_last (name : Name) {batches : List Bytes} {k : Nat}
    (content : sw.dir.content sw.current = (frames batches).take k)
    (enough : ((frames batches).take k).length ≤ sw.size) (small : Small batches) :
    (readFrom (fun _ _ => true) sw [name]).batches = survivors k batches ∧
    (readFrom (fun _ _ => true) sw [name]).error = none ∧
    (readFrom (fun _ _ => true) sw [name]).wal =
      if (frames (survivors k batches)).length = ((frames batches).take k).length then sw
      else sw.truncate (frames (survivors k batches)).length := by
  have loop := readSegmentFrames_cut small [] k
    (show ([] ++ (frames batches).take k).length ≤ sw.size by simpa using enough)
  simp only [List.nil_append, List.length_nil, Nat.zero_add] at loop
  rw [readFrom, content, loop]
  by_cases whole : (frames (survivors k batches)).length = ((frames batches).take k).length
  · rw [if_pos whole, if_pos whole]
    exact ⟨by simp [ReadResult.batches], rfl, rfl⟩
  · rw [if_neg whole, if_neg whole]
    exact ⟨by simp [ReadResult.batches], rfl, rfl⟩

end SegmentedWAL

namespace Laid

open SegmentedWAL

variable {sw : SegmentedWAL} {closed : List Bytes} {last : Bytes} {segs : List (List Bytes)} {batches : List Bytes}
  {k : Nat}

theorem readLast (laid : Laid sw closed ((frames batches).take k)) (few : closed.length ≤ 10 ^ 8)
    (small : Small batches) (name : Name) :
    (readFrom (fun _ _ => true) sw [name]).batches = survivors k batches ∧
    (readFrom (fun _ _ => true) sw [name]).error = none ∧
    Laid (readFrom (fun _ _ => true) sw [name]).wal closed (frames (survivors k batches)) := by
  obtain ⟨got, error, wal⟩ := readFrom_last name laid.content_current laid.size small
  refine ⟨got, error, ?_⟩
  rw [wal]
  split
  · next whole =>
    rwa [eq_survivors whole] at laid
  · have cut := laid.truncate few (frames (survivors k batches)).length
    rwa [take_survivors] at cut

/-- The segments of a run in front of segment `n`, with what they hold. -/
theorem pairs (laid : Laid sw closed last) {n : Nat} (bound : n ≤ segs.length) (long : n ≤ closed.length)
    (whole : ∀ i bs, i < n → segs[i]? = some bs → closed[i]? = some (frames bs))
    (small : ∀ bs ∈ segs, Small bs) :
    ∃ pairs : List (Name × List Bytes), pairs.map Prod.fst = (List.range n).map segmentName ∧
      pairs.map Prod.snd = segs.take n ∧
      ∀ p ∈ pairs, p.1 ∈ sw.dir.names ∧ sw.dir.content p.1 = frames p.2 ∧ Small p.2 := by
  refine ⟨((List.range n).map segmentName).zip (segs.take n), List.map_fst_zip (by simp; omega),
    List.map_snd_zip (by simp), fun p inside => ?_⟩
  obtain ⟨i, here⟩ := List.mem_iff_getElem?.mp inside
  obtain ⟨name, batches⟩ := List.getElem?_zip_eq_some.mp here
  have low : i < n := by simpa using (List.getElem?_eq_some_iff.mp name).1
  rw [List.getElem?_map, List.getElem?_range low, Option.map_some] at name
  rw [List.getElem?_take_of_lt low] at batches
  rw [← Option.some.inj name]
  exact ⟨laid.mem_names (by omega), laid.files i _ (whole i _ low batches),
    small _ (List.mem_of_getElem? batches)⟩

theorem segments_split (laid : Laid sw closed last) {n : Nat} (bound : n < closed.length) :
    ∃ rest, rest ≠ [] ∧
      sw.segments = (List.range n).map segmentName ++ segmentName n :: rest := by
  refine ⟨(List.range' (n + 1) (closed.length - n)).map segmentName, by simp; omega, ?_⟩
  rw [laid.segments, ← List.map_cons, ← List.map_append]
  congr 1
  rw [List.range_eq_range', List.range_eq_range',
    show n :: List.range' (n + 1) (closed.length - n) = List.range' n (closed.length - n + 1) from rfl,
    show closed.length + 1 = n + (closed.length - n + 1) by omega, ← List.range'_append_1, Nat.zero_add]

theorem readAll (laid : Laid sw (segs.map frames) ((frames batches).take k)) (few : segs.length ≤ 10 ^ 8)
    (small : ∀ bs ∈ segs, Small bs) (fits : Small batches) :
    sw.readAll.batches = segs.flatten ++ survivors k batches ∧ sw.readAll.error = none ∧
    Laid sw.readAll.wal (segs.map frames) (frames (survivors k batches)) := by
  obtain ⟨pairs, names, contents, whole⟩ := laid.pairs (n := segs.length) (Nat.le_refl _)
    (by simp) (fun i bs _ here => by rw [List.getElem?_map, here]; rfl) small
  obtain ⟨got, error, wal⟩ := laid.readLast (by simpa using few) fits (segmentName segs.length)
  have split : sw.segments = pairs.map Prod.fst ++ [segmentName segs.length] := by
    rw [laid.segments, names, List.length_map, List.range_succ, List.map_append, List.map_singleton]
  obtain ⟨first, second, third⟩ := readFrom_whole pairs
    (show [segmentName segs.length] ≠ [] by simp) whole
  unfold SegmentedWAL.readAll
  rw [split, first, second, third, contents, got, error, List.take_length]
  exact ⟨rfl, rfl, wal⟩

theorem readAll_corrupt {j k : Nat} (laid : Laid sw ((segs.map frames).set j ((frames batches).take k)) last)
    (here : segs[j]? = some batches) (small : ∀ bs ∈ segs, Small bs)
    (inside : k ≤ (frames batches).length) (off : ¬ Boundary batches k) :
    sw.readAll.error = some (.corruptionInSealed (segmentName j)) := by
  have low := (List.getElem?_eq_some_iff.mp here).1
  obtain ⟨pairs, names, _, whole⟩ := laid.pairs (n := j) (by omega) (by simpa using low.le) (fun i bs below there => by
    rw [List.getElem?_set_ne (by omega), List.getElem?_map, there]
    rfl) small
  obtain ⟨rest, more, split⟩ := laid.segments_split (n := j) (by simpa using low)
  have torn := laid.files j _ (by rw [List.getElem?_set_self (by simpa using low)])
  unfold SegmentedWAL.readAll
  rw [split, ← names, (readFrom_whole pairs (by simp) whole).2.1]
  exact readFrom_corrupt more (laid.mem_names (by simpa using low.le)) torn (small _ (List.mem_of_getElem? here))
    inside off

end Laid

/-! ### Runs -/

inductive WALOp where
  | write (batch : Bytes)
  | cut
  | reopen
  deriving DecidableEq, Repr

namespace SegmentedWAL

def step (sw : SegmentedWAL) : WALOp → SegmentedWAL
  | .write batch => sw.write batch
  | .cut => sw.cut
  | .reopen => newSegmentedWAL sw.dir

def exec (ops : List WALOp) : SegmentedWAL := Runs.exec step (newSegmentedWAL {}) ops

def tear (sw : SegmentedWAL) (name : Name) (k : Nat) : SegmentedWAL :=
  { sw with dir := { sw.dir with
      content := Function.update sw.dir.content name ((sw.dir.content name).take k) } }

end SegmentedWAL

structure Written where
  closed : List (List Bytes) := []
  last : List Bytes := []

namespace Written

def step (w : Written) : WALOp → Written
  | .write batch => { w with last := w.last ++ [batch] }
  | .cut => { closed := w.closed ++ [w.last] }
  | .reopen => w

def after (ops : List WALOp) : Written := Runs.exec step {} ops

structure Fits (w : Written) : Prop where
  closed : ∀ bs ∈ w.closed, Small bs
  last : Small w.last

theorem Fits.step {w : Written} (fits : Fits w) {op : WALOp}
    (small : ∀ batch, op = .write batch → batch.length < 2 ^ 32) : Fits (w.step op) := by
  cases op with
  | write batch =>
    exact ⟨fits.closed, fits.last.snoc (small batch rfl)⟩
  | cut =>
    refine ⟨fun bs inside => ?_, fun b inside => by cases inside⟩
    rcases List.mem_append.mp inside with front | back
    · exact fits.closed bs front
    · cases List.mem_singleton.mp back
      exact fits.last
  | reopen => exact fits

end Written

open SegmentedWAL in
theorem Laid.step {sw : SegmentedWAL} {w : Written} {op : WALOp}
    (laid : Laid sw (w.closed.map frames) (frames w.last)) (few : (w.step op).closed.length ≤ 10 ^ 8)
    (strict : op = .reopen → w.closed.length < 10 ^ 8) :
    Laid (sw.step op) ((w.step op).closed.map frames) (frames (w.step op).last) := by
  cases op with
  | write batch =>
    have done := laid.write (by simpa [Written.step] using few) batch
    rwa [show frames w.last ++ frame batch = frames (w.last ++ [batch]) by simp [frames_append]] at done
  | cut =>
    have done := laid.cut (by simpa [Written.step] using few)
    rwa [show w.closed.map frames ++ [frames w.last] = (w.closed ++ [w.last]).map frames by simp] at done
  | reopen => exact laid.reopen (by simpa using strict rfl)

theorem Laid.run {sw : SegmentedWAL} {w : Written} (ops : List WALOp)
    (laid : Laid sw (w.closed.map frames) (frames w.last)) (fits : w.Fits)
    (few : w.closed.length + ops.count .cut ≤ 10 ^ 8)
    (strict : .reopen ∈ ops → w.closed.length + ops.count .cut < 10 ^ 8)
    (small : ∀ batch, .write batch ∈ ops → batch.length < 2 ^ 32) :
    Laid (Runs.exec SegmentedWAL.step sw ops) ((Runs.exec Written.step w ops).closed.map frames)
      (frames (Runs.exec Written.step w ops).last) ∧ (Runs.exec Written.step w ops).Fits ∧
    (Runs.exec Written.step w ops).closed.length = w.closed.length + ops.count .cut := by
  induction ops generalizing sw w with
  | nil => exact ⟨laid, fits, rfl⟩
  | cons op ops ih =>
    have length : (w.step op).closed.length + ops.count .cut = w.closed.length + (op :: ops).count .cut := by
      cases op <;> simp [Written.step]
      omega
    have next : Laid (sw.step op) ((w.step op).closed.map frames) (frames (w.step op).last) := by
      refine laid.step (by omega) fun same => ?_
      have := strict (by simp [same])
      omega
    have fitting : (w.step op).Fits := fits.step fun batch same => small batch (by simp [same])
    obtain ⟨done, kept, size⟩ := ih next fitting (by omega)
      (fun inside => by have := strict (by simp [inside]); omega)
      (fun batch inside => small batch (by simp [inside]))
    exact ⟨done, kept, size.trans length⟩

theorem laid_empty : Laid (SegmentedWAL.newSegmentedWAL {}) [] [] := by
  have made : SegmentedWAL.newSegmentedWAL {} =
      SegmentedWAL.newWAL {} [segmentName 0] (segmentName 0) := by
    simp [SegmentedWAL.newSegmentedWAL, Dir.listSegments]
  rw [made]
  exact ⟨rfl, rfl, fun _ _ here => by simp at here, rfl, rfl, Nat.zero_le _⟩

theorem laid_exec (ops : List WALOp) (few : ops.count .cut ≤ 10 ^ 8)
    (strict : .reopen ∈ ops → ops.count .cut < 10 ^ 8)
    (small : ∀ batch, .write batch ∈ ops → batch.length < 2 ^ 32) :
    Laid (SegmentedWAL.exec ops) ((Written.after ops).closed.map frames) (frames (Written.after ops).last) ∧
      (Written.after ops).Fits ∧ (Written.after ops).closed.length = ops.count .cut := by
  have fits : Written.Fits {} := ⟨by simp, by simp [Small]⟩
  obtain ⟨laid, kept, length⟩ := Laid.run (w := {}) ops laid_empty fits (by simpa using few)
    (by simpa using strict) small
  exact ⟨laid, kept, length.trans (Nat.zero_add _)⟩

/-! ### Recovery -/

/-- What a reader of the directory owes to the batches that were written, after the last file
was cut to `k` bytes. -/
structure Recovers (reader : SegmentedWAL) (w : Written) (k : Nat) : Prop where
  accepted : reader.readAll.error = none
  delivered : reader.readAll.batches = w.closed.flatten ++ survivors k w.last
  truncated : reader.readAll.wal.dir.content (segmentName w.closed.length) = frames (survivors k w.last)
  again : reader.readAll.wal.readAll.error = none ∧
    reader.readAll.wal.readAll.batches = reader.readAll.batches
  next : ∀ batch, batch.length < 2 ^ 32 → (reader.readAll.wal.write batch).readAll.error = none ∧
    (reader.readAll.wal.write batch).readAll.batches = reader.readAll.batches ++ [batch]

theorem Laid.recovers {reader : SegmentedWAL} {w : Written} {k : Nat}
    (laid : Laid reader (w.closed.map frames) ((frames w.last).take k)) (fits : w.Fits)
    (few : w.closed.length ≤ 10 ^ 8) : Recovers reader w k := by
  obtain ⟨got, error, left⟩ := laid.readAll few fits.closed fits.last
  have kept := fits.last.survivors k
  have whole := left
  rw [← List.take_length (l := frames (survivors k w.last))] at whole
  obtain ⟨again, fine, _⟩ := whole.readAll few fits.closed kept
  rw [survivors_all (Nat.le_refl _), ← got] at again
  refine ⟨error, got, ?_, ⟨fine, again⟩, fun batch small => ?_⟩
  · have tail := left.tail
    rwa [List.length_map] at tail
  · have written := left.write (by simpa using few) batch
    rw [show frames (survivors k w.last) ++ frame batch = frames (survivors k w.last ++ [batch]) by
      simp [frames_append], ← List.take_length (l := frames (survivors k w.last ++ [batch]))] at written
    obtain ⟨more, good, _⟩ := written.readAll few fits.closed (kept.snoc small)
    rw [survivors_all (Nat.le_refl _), ← List.append_assoc, ← got] at more
    exact ⟨good, more⟩

theorem Laid.tear {sw : SegmentedWAL} {closed : List Bytes} {last : Bytes} (laid : Laid sw closed last)
    (few : closed.length ≤ 10 ^ 8) (k : Nat) : Laid (sw.tear sw.current k) closed (last.take k) := by
  refine laid.rewrite few rfl rfl rfl ?_ ((List.length_take_le' _ _).trans laid.size)
  simp only [SegmentedWAL.tear, laid.content_current]

theorem Laid.tear_closed {sw : SegmentedWAL} {closed : List Bytes} {last file : Bytes}
    (laid : Laid sw closed last) (few : closed.length ≤ 10 ^ 8) {i : Nat} (here : closed[i]? = some file) (k : Nat) :
    Laid (sw.tear (segmentName i) k) (closed.set i (file.take k)) last := by
  have low := (List.getElem?_eq_some_iff.mp here).1
  have content : (sw.tear (segmentName i) k).dir.content =
      Function.update sw.dir.content (segmentName i) (file.take k) := by
    simp only [SegmentedWAL.tear, laid.files i file here]
  refine ⟨?_, laid.names, fun j other there => ?_, ?_, ?_, laid.size⟩
  · rw [List.length_set]
    exact laid.segments
  · rw [content]
    by_cases same : j = i
    · subst same
      rw [List.getElem?_set_self low] at there
      cases there
      exact Function.update_self ..
    · have bound := (List.getElem?_eq_some_iff.mp there).1
      rw [List.length_set] at bound
      rw [List.getElem?_set_ne (Ne.symm same)] at there
      have distinct : segmentName j ≠ segmentName i := by
        rcases Nat.lt_or_gt_of_ne same with below | above
        · exact segmentName_ne below (by omega)
        · exact (segmentName_ne above (by omega)).symm
      rw [Function.update_of_ne distinct]
      exact laid.files j other there
  · rw [List.length_set, content, Function.update_of_ne (segmentName_ne low few).symm]
    exact laid.tail
  · rw [List.length_set]
    exact laid.current

open SegmentedWAL in
/-- As long as a sequence number has eight digits, a log recovers from every cut of its last
file, with the handle it has or opened again, and reports a cut inside a frame of any other. -/
theorem torn_tail_recovered (ops : List WALOp) (few : ops.count .cut < 10 ^ 8)
    (small : ∀ batch, .write batch ∈ ops → batch.length < 2 ^ 32) :
    (∀ k, Recovers ((exec ops).tear (exec ops).current k) (Written.after ops) k ∧
      Recovers (newSegmentedWAL ((exec ops).tear (exec ops).current k).dir) (Written.after ops) k) ∧
    ∀ i batches k, (Written.after ops).closed[i]? = some batches → k ≤ (frames batches).length →
      ¬ Boundary batches k →
      ((exec ops).tear (segmentName i) k).readAll.error = some (.corruptionInSealed (segmentName i)) ∧
      (newSegmentedWAL ((exec ops).tear (segmentName i) k).dir).readAll.error =
        some (.corruptionInSealed (segmentName i)) := by
  obtain ⟨laid, fits, length⟩ := laid_exec ops few.le (fun _ => few) small
  have bound : ((Written.after ops).closed.map frames).length < 10 ^ 8 := by
    rw [List.length_map]
    omega
  constructor
  · intro k
    have torn := laid.tear bound.le k
    exact ⟨torn.recovers fits (by omega), (torn.reopen bound).recovers fits (by omega)⟩
  · intro i batches k here inside off
    have torn := laid.tear_closed bound.le (by rw [List.getElem?_map, here]; rfl) k
    exact ⟨torn.readAll_corrupt here fits.closed inside off,
      (torn.reopen (by simpa using bound)).readAll_corrupt here fits.closed inside off⟩

def threeBatches : List WALOp := [.write [1, 2], .write [], .cut, .write [3]]

theorem threeBatches_recovered :
    (SegmentedWAL.newSegmentedWAL
      ((SegmentedWAL.exec threeBatches).tear (SegmentedWAL.exec threeBatches).current 4).dir).readAll.batches =
        [[1, 2], []] := by
  have recovered := torn_tail_recovered threeBatches (by decide) (by
    intro batch inside
    simp only [threeBatches, List.mem_cons, WALOp.write.injEq, reduceCtorEq, List.not_mem_nil, or_false,
      false_or] at inside
    rcases inside with rfl | rfl | rfl <;> decide)
  exact (recovered.1 4).2.delivered

/-- The number of the segment behind one with nine digits: eight of them are read back. -/
theorem Laid.cut_wide {sw : SegmentedWAL} {closed : List Bytes} {last : Bytes} (laid : Laid sw closed last)
    (wide : closed.length = 10 ^ 8) : sw.cut = {
      dir := sw.dir
      segments := sw.segments ++ [segmentName (10 ^ 7 + 1)]
      current := segmentName (10 ^ 7 + 1)
      size := (sw.dir.content (segmentName (10 ^ 7 + 1))).length } := by
  have opened : sw.dir.openFile (segmentName (10 ^ 7 + 1)) = sw.dir :=
    if_pos (laid.mem_names (by rw [wide]; norm_num))
  have made : sw.cut = SegmentedWAL.newWAL sw.dir (sw.segments ++ [segmentName (10 ^ 7 + 1)])
      (segmentName (10 ^ 7 + 1)) := by
    unfold SegmentedWAL.cut
    rw [laid.getLast_segments, wide, Option.bind_some, parseSegmentSeq_wide, Option.getD_some]
  rw [made]
  unfold SegmentedWAL.newWAL
  rw [opened]

/-- Whatever file is opened behind the last segment is read once more. -/
theorem Laid.read_again {sw sw' : SegmentedWAL} {w : Written} {name : Name} {batches : List Bytes}
    (laid : Laid sw (w.closed.map frames) (frames w.last)) (fits : w.Fits)
    (dirNames : sw'.dir.names = sw.dir.names) (content : sw'.dir.content = sw.dir.content)
    (segments : sw'.segments = sw.segments ++ [name]) (current : sw'.dir.content sw'.current = frames batches)
    (enough : (frames batches).length ≤ sw'.size) (small : Small batches) :
    sw'.readAll.batches = (w.closed ++ [w.last]).flatten ++ batches := by
  obtain ⟨pairs, names, contents, whole⟩ := laid.pairs (n := w.closed.length) (Nat.le_refl _) (by simp)
    (fun i bs _ here => by rw [List.getElem?_map, here]; rfl) fits.closed
  have all : ∀ p ∈ pairs ++ [(segmentName w.closed.length, w.last)],
      p.1 ∈ sw'.dir.names ∧ sw'.dir.content p.1 = frames p.2 ∧ Small p.2 := by
    intro p inside
    rw [dirNames, content]
    rcases List.mem_append.mp inside with front | back
    · exact whole p front
    · cases List.mem_singleton.mp back
      have tail := laid.tail
      rw [List.length_map] at tail
      exact ⟨laid.mem_names (by simp), tail, fits.last⟩
  have split : sw.segments = (pairs ++ [(segmentName w.closed.length, w.last)]).map Prod.fst := by
    rw [laid.segments, List.map_append, names, List.length_map, List.range_succ, List.map_append]
    rfl
  rw [← List.take_length (l := frames batches)] at current
  have last := (SegmentedWAL.readFrom_last name current (by simpa using enough) small).1
  unfold SegmentedWAL.readAll
  rw [segments, split, (SegmentedWAL.readFrom_whole _ (by simp) all).1, last, survivors_all (Nat.le_refl _),
    List.map_append, contents, List.take_length]
  rfl

theorem Laid.read_wide {sw : SegmentedWAL} {w : Written} (laid : Laid sw (w.closed.map frames) (frames w.last))
    (fits : w.Fits) (wide : w.closed.length = 10 ^ 8) (found : w.closed[10 ^ 7 + 1]? = some [[7]]) :
    (sw.cut.tear sw.cut.current 5).readAll.batches = (w.closed ++ [w.last]).flatten ++ [[7]] := by
  have file : sw.dir.content (segmentName (10 ^ 7 + 1)) = frames [[7]] :=
    laid.files _ _ (by rw [List.getElem?_map, found]; rfl)
  -- five bytes are all that the file has
  have same : Function.update sw.dir.content (segmentName (10 ^ 7 + 1))
      ((sw.dir.content (segmentName (10 ^ 7 + 1))).take 5) = sw.dir.content := by
    rw [file, show (frames [[7]]).take 5 = frames [[7]] from rfl, ← file, Function.update_eq_self]
  have made := laid.cut_wide (by rw [List.length_map, wide])
  have content : (sw.cut.tear sw.cut.current 5).dir.content = sw.dir.content := by
    rw [made]
    exact same
  have current : (sw.cut.tear sw.cut.current 5).current = segmentName (10 ^ 7 + 1) := by
    rw [made]
    rfl
  have size : (sw.cut.tear sw.cut.current 5).size = (frames [[7]]).length := by
    rw [made, ← file]
    rfl
  refine laid.read_again fits (by rw [made]; rfl) content (by rw [made]; rfl) ?_ (by rw [size]) (by simp [Small])
  rw [content, current, file]

theorem Written.exec_cuts (w : Written) (m : Nat) :
    Runs.exec step w (List.replicate (m + 1) .cut) = { closed := w.closed ++ w.last :: List.replicate m [] } := by
  induction m generalizing w with
  | zero => rfl
  | succ m ih =>
    rw [List.replicate_succ, Runs.exec_cons, ih]
    simp [step, List.replicate_succ]

def cutsAround (a b : Nat) : List WALOp :=
  List.replicate (a + 1) .cut ++ .write [7] :: List.replicate (b + 1) .cut

theorem cutsAround_closed (a b : Nat) : (Written.after (cutsAround a b)).closed[a + 1]? = some [[7]] := by
  unfold Written.after cutsAround
  rw [Runs.exec_append, Written.exec_cuts, Runs.exec_cons, Written.exec_cuts]
  simp [Written.step]

theorem cutsAround_count (a b : Nat) : (cutsAround a b).count .cut = a + 1 + (b + 1) := by
  simp [cutsAround]

theorem cutsAround_small (a b : Nat) :
    (∀ batch, .write batch ∈ cutsAround a b ++ [.cut] → batch.length < 2 ^ 32) ∧ .reopen ∉ cutsAround a b := by
  simp [cutsAround, List.mem_replicate]

def nineDigits : List WALOp := cutsAround (10 ^ 7) (9 * 10 ^ 7 - 2) ++ [.cut]

open SegmentedWAL in
/-- Behind segment 100000000 the log goes on in segment 10000001, which holds a batch already;
nothing of the file is cut, and the batch is delivered twice. -/
theorem nineDigits_delivers_twice : (∀ batch, .write batch ∈ nineDigits → batch.length < 2 ^ 32) ∧
    ¬ Recovers ((exec nineDigits).tear (exec nineDigits).current 5) (Written.after nineDigits) 5 := by
  obtain ⟨small, straight⟩ := cutsAround_small (10 ^ 7) (9 * 10 ^ 7 - 2)
  refine ⟨small, fun recovers => ?_⟩
  have delivered := recovers.delivered
  have found := cutsAround_closed (10 ^ 7) (9 * 10 ^ 7 - 2)
  have count := cutsAround_count (10 ^ 7) (9 * 10 ^ 7 - 2)
  obtain ⟨laid, fits, length⟩ := laid_exec (cutsAround (10 ^ 7) (9 * 10 ^ 7 - 2))
    (by rw [count]; norm_num) (fun inside => absurd inside straight)
    (fun batch inside => small batch (List.mem_append_left _ inside))
  have steps : exec nineDigits = (exec (cutsAround (10 ^ 7) (9 * 10 ^ 7 - 2))).cut ∧
      Written.after nineDigits = (Written.after (cutsAround (10 ^ 7) (9 * 10 ^ 7 - 2))).step .cut := by
    unfold exec Written.after nineDigits
    rw [Runs.exec_append, Runs.exec_append]
    exact ⟨rfl, rfl⟩
  rw [steps.1, steps.2, laid.read_wide fits (by rw [length, count]; norm_num) found] at delivered
  simp [Written.step, survivors] at delivered

end Wal

end Kvgo

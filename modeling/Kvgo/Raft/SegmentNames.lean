import Kvgo.Lib.Runs
import Kvgo.Raft.Wal

/-! The numbers in the names of the segments (`segment.go`): the order of the names against the
order of the numbers, and against the order in which the files were made. -/

namespace Kvgo

namespace Wal

/-! ### Deleting segments -/

def Dir.remove (d : Dir) (name : Name) : Dir :=
  { d with names := d.names.filter fun other => decide (other ≠ name) }

def Dir.created (d : Dir) : List Name := d.names.filter fun name => (parseSegmentSeq name).isSome

namespace SegmentedWAL

/-- The loop of `deleteSegments`; `removes` answers whether `os.Remove` did not fail, a file that
is not there counting as removed. The list is lost when it fails. -/
def deleteFrom (shouldDelete removes : Name → Bool) (current : Name) : List Name → Dir → Option (List Name) × Dir
  | [], d => (some [], d)
  | name :: rest, d =>
    if name = current ∨ shouldDelete name = false then
      let more := deleteFrom shouldDelete removes current rest d
      (more.1.map (name :: ·), more.2)
    else if removes name then deleteFrom shouldDelete removes current rest (d.remove name)
    else (none, d)

def deleteSegments (sw : SegmentedWAL) (shouldDelete removes : Name → Bool) : SegmentedWAL :=
  let done := deleteFrom shouldDelete removes sw.current sw.segments sw.dir
  { sw with dir := done.2, segments := done.1.getD sw.segments }

def lastSeq (sw : SegmentedWAL) : Nat := (sw.segments.getLast?.bind parseSegmentSeq).getD 0

def cutName (sw : SegmentedWAL) : Name := segmentName (sw.lastSeq + 1)

/-- The directory lists its segments as they were made, and the next cut makes a new file. -/
structure InOrder (sw : SegmentedWAL) : Prop where
  listed : sw.dir.listSegments = sw.dir.created
  fresh : sw.cutName ∉ sw.dir.names

theorem cut_eq (sw : SegmentedWAL) : sw.cut = newWAL sw.dir (sw.segments ++ [sw.cutName]) sw.cutName := rfl

end SegmentedWAL

/-- What happens to a directory of segments; `reopen` is a restart. -/
inductive SegmentEvent where
  | write (batch : Bytes)
  | cut
  | deleteSegments (shouldDelete removes : Name → Bool)
  | reopen

namespace SegmentEvent

open SegmentedWAL

def step (sw : SegmentedWAL) : SegmentEvent → SegmentedWAL
  | write batch => sw.write batch
  | cut => sw.cut
  | deleteSegments shouldDelete removes => sw.deleteSegments shouldDelete removes
  | reopen => newSegmentedWAL sw.dir

def Narrow (sw : SegmentedWAL) : SegmentEvent → Prop
  | cut => sw.lastSeq + 1 < 10 ^ 8
  | _ => True

end SegmentEvent

/-! ### One name -/

theorem parseSegmentSeq_isSome (seq : Nat) : (parseSegmentSeq (segmentName seq)).isSome = true := by
  rw [parseSegmentSeq_eq]
  rfl

theorem parseSegmentSeq_iff (seq : Nat) : parseSegmentSeq (segmentName seq) = some seq ↔ seq < 10 ^ 8 := by
  constructor
  · intro back
    rw [parseSegmentSeq_eq] at back
    rw [← Option.some.inj back]
    exact Nat.mod_lt _ (by decide)
  · exact parseSegmentSeq_segmentName

theorem segmentName_lt_iff {a b : Nat} (first : a < 10 ^ 8) (second : b < 10 ^ 8) :
    segmentName a < segmentName b ↔ a < b := by
  constructor
  · intro before
    by_contra notLess
    rcases Nat.lt_or_eq_of_le (Nat.le_of_not_lt notLess) with greater | rfl
    · exact lt_asymm before (segmentName_lt greater first)
    · exact lt_irrefl _ before
  · exact fun less => segmentName_lt less second

/-! ### The names of a directory -/

/-- The segments carry rising numbers of eight digits, and the last one made is the current one. -/
structure Numbered (sw : SegmentedWAL) (older : List Nat) (last : Nat) : Prop where
  created : sw.dir.created = (older ++ [last]).map segmentName
  rising : (older ++ [last]).Pairwise (· < ·)
  few : last < 10 ^ 8
  listed : sw.segments.getLast? = some (segmentName last)
  current : sw.current = segmentName last

namespace Numbered

open SegmentedWAL

variable {sw : SegmentedWAL} {older : List Nat} {last : Nat}

theorem le_last (numbered : Numbered sw older last) {seq : Nat} (inside : seq ∈ older ++ [last]) : seq ≤ last := by
  rcases List.mem_append.mp inside with front | back
  · exact le_of_lt ((List.pairwise_append.mp numbered.rising).2.2 seq front last (by simp))
  · exact le_of_eq (List.mem_singleton.mp back)

theorem listSegments (numbered : Numbered sw older last) : sw.dir.listSegments = sw.dir.created := by
  rw [numbered.created]
  refine Dir.listSegments_rising numbered.created numbered.rising fun seq inside => ?_
  exact Nat.lt_of_le_of_lt (numbered.le_last inside) numbered.few

theorem lastSeq (numbered : Numbered sw older last) : sw.lastSeq = last := by
  unfold SegmentedWAL.lastSeq
  rw [numbered.listed]
  show (parseSegmentSeq (segmentName last)).getD 0 = last
  rw [parseSegmentSeq_segmentName numbered.few]
  rfl

theorem cutName_fresh (numbered : Numbered sw older last) : sw.cutName ∉ sw.dir.names := by
  unfold cutName
  rw [numbered.lastSeq]
  intro inside
  have counted : segmentName (last + 1) ∈ sw.dir.created :=
    List.mem_filter.mpr ⟨inside, parseSegmentSeq_isSome _⟩
  rw [numbered.created] at counted
  obtain ⟨seq, listed, same⟩ := List.mem_map.mp counted
  have few := numbered.few
  have bound := numbered.le_last listed
  exact segmentName_ne (show seq < last + 1 by omega) (by omega) same

theorem write (numbered : Numbered sw older last) (batch : Bytes) : Numbered (sw.write batch) older last :=
  ⟨numbered.created, numbered.rising, numbered.few, numbered.listed, numbered.current⟩

theorem created_openFile {d : Dir} {seq : Nat} (fresh : segmentName seq ∉ d.names) :
    (d.openFile (segmentName seq)).created = d.created ++ [segmentName seq] := by
  unfold Dir.openFile Dir.created
  rw [if_neg fresh, List.filter_append]
  simp [parseSegmentSeq_isSome]

theorem cut (numbered : Numbered sw older last) (narrow : sw.lastSeq + 1 < 10 ^ 8) :
    Numbered sw.cut (older ++ [last]) (last + 1) := by
  have fresh := numbered.cutName_fresh
  have next : sw.cutName = segmentName (last + 1) := by rw [cutName, numbered.lastSeq]
  rw [numbered.lastSeq] at narrow
  rw [cut_eq]
  rw [next] at fresh ⊢
  refine ⟨?_, ?_, narrow, List.getLast?_concat, rfl⟩
  · show (sw.dir.openFile (segmentName (last + 1))).created = _
    rw [created_openFile fresh, numbered.created]
    simp
  · refine List.pairwise_append.mpr ⟨numbered.rising, List.pairwise_singleton _ _, fun seq inside next here => ?_⟩
    have bound := numbered.le_last inside
    rw [List.mem_singleton.mp here]
    omega

/-! The loop of `deleteSegments` takes files away and never the current one. -/

section Delete

variable (shouldDelete removes : Name → Bool) (current : Name)

theorem deleteFrom_names (segments : List Name) (d : Dir) : ∃ stays : Name → Bool, stays current = true ∧
    (deleteFrom shouldDelete removes current segments d).2.names = d.names.filter stays := by
  induction segments generalizing d with
  | nil => exact ⟨fun _ => true, rfl, (List.filter_true _).symm⟩
  | cons name rest ih =>
    unfold deleteFrom
    split
    · exact ih d
    · next other =>
      split
      · obtain ⟨stays, kept, names⟩ := ih (d.remove name)
        refine ⟨fun file => stays file && decide (file ≠ name), ?_, ?_⟩
        · have differs : current ≠ name := fun same => other (.inl same.symm)
          simp [kept, differs]
        · rw [names]
          exact List.filter_filter
      · exact ⟨fun _ => true, rfl, (List.filter_true _).symm⟩

theorem deleteFrom_concat (front : List Name) (d : Dir) :
    (deleteFrom shouldDelete removes current (front ++ [current]) d).1 =
      (deleteFrom shouldDelete removes current front d).1.map (· ++ [current]) := by
  induction front generalizing d with
  | nil => simp [deleteFrom]
  | cons name rest ih =>
    rw [List.cons_append, deleteFrom, deleteFrom]
    split
    · dsimp only
      rw [ih, Option.map_map, Option.map_map]
      rfl
    · split
      · exact ih _
      · rfl

end Delete

theorem deleteSegments (numbered : Numbered sw older last) (shouldDelete removes : Name → Bool) :
    ∃ kept, Numbered (sw.deleteSegments shouldDelete removes) kept last := by
  obtain ⟨stays, kept, names⟩ := deleteFrom_names shouldDelete removes sw.current sw.segments sw.dir
  rw [numbered.current] at kept
  refine ⟨older.filter fun seq => stays (segmentName seq), ?_, ?_, numbered.few, ?_, numbered.current⟩
  · show (deleteFrom shouldDelete removes sw.current sw.segments sw.dir).2.names.filter _ = _
    have swapped : (sw.dir.names.filter stays).filter (fun name => (parseSegmentSeq name).isSome) =
        sw.dir.created.filter stays := List.filter_comm _ _ _
    rw [names, swapped, numbered.created, List.filter_map, List.filter_append]
    simp [kept, Function.comp_def]
  · exact numbered.rising.sublist (List.Sublist.append_right List.filter_sublist _)
  · obtain ⟨front, split⟩ := List.getLast?_eq_some_iff.mp numbered.listed
    show ((deleteFrom shouldDelete removes sw.current sw.segments sw.dir).1.getD sw.segments).getLast? = _
    rw [numbered.current, split, deleteFrom_concat]
    cases (deleteFrom shouldDelete removes (segmentName last) front sw.dir).1 with
    | none => exact List.getLast?_concat
    | some rest => exact List.getLast?_concat

theorem reopen (numbered : Numbered sw older last) : Numbered (newSegmentedWAL sw.dir) older last := by
  have found : sw.dir.listSegments = (older ++ [last]).map segmentName := by
    rw [numbered.listSegments, numbered.created]
  have final : sw.dir.listSegments.getLast? = some (segmentName last) := by
    rw [found, List.map_append]
    exact List.getLast?_concat
  have there : segmentName last ∈ sw.dir.names := by
    have counted : segmentName last ∈ sw.dir.created := by
      rw [numbered.created]
      exact List.mem_map_of_mem (by simp)
    exact (List.mem_filter.mp counted).1
  rw [newSegmentedWAL_last final there]
  exact ⟨numbered.created, numbered.rising, numbered.few, final, rfl⟩

theorem step (numbered : Numbered sw older last) (event : SegmentEvent) (narrow : event.Narrow sw) :
    ∃ older last, Numbered (SegmentEvent.step sw event) older last := by
  cases event with
  | write batch => exact ⟨_, _, numbered.write batch⟩
  | cut => exact ⟨_, _, numbered.cut narrow⟩
  | deleteSegments shouldDelete removes =>
    obtain ⟨kept, still⟩ := numbered.deleteSegments shouldDelete removes
    exact ⟨kept, last, still⟩
  | reopen => exact ⟨_, _, numbered.reopen⟩

/-- A directory without segments gets the segment 0. -/
theorem start {d : Dir} (foreign : ∀ name ∈ d.names, parseSegmentSeq name = none) :
    Numbered (newSegmentedWAL d) [] 0 := by
  have nothing : d.created = [] :=
    List.filter_eq_nil_iff.mpr fun name inside => by rw [foreign name inside]; decide
  have unlisted : d.listSegments = [] := by
    show d.created.mergeSort _ = []
    rw [nothing, List.mergeSort_nil]
  have fresh : segmentName 0 ∉ d.names := by
    intro inside
    have missing := foreign _ inside
    rw [parseSegmentSeq_segmentName (by decide)] at missing
    cases missing
  have made : newSegmentedWAL d = newWAL d [segmentName 0] (segmentName 0) := by
    unfold newSegmentedWAL
    rw [unlisted]
    rfl
  rw [made]
  refine ⟨?_, List.pairwise_singleton _ _, by decide, rfl, rfl⟩
  show (d.openFile (segmentName 0)).created = _
  rw [created_openFile fresh, nothing]
  rfl

theorem run {d : Dir} (foreign : ∀ name ∈ d.names, parseSegmentSeq name = none) {events : List SegmentEvent}
    (narrow : Runs.Along SegmentEvent.step (fun sw event => event.Narrow sw) (newSegmentedWAL d) events)
    (moment : Nat) :
    ∃ older last, Numbered (Runs.exec SegmentEvent.step (newSegmentedWAL d) (events.take moment)) older last :=
  Runs.invariant_take SegmentEvent.step (fun sw => ∃ older last, Numbered sw older last)
    (fun _ event ⟨_, _, numbered⟩ narrow => numbered.step event narrow) ⟨[], 0, start foreign⟩ narrow moment

end Numbered

open SegmentedWAL

/-- A number comes back from its name, and two names sort as their numbers, exactly for numbers of
eight digits. As long as every cut makes such a number, the directory lists its segments in the
order of their creation and the next cut makes a new file. -/
theorem segment_names_ordered (a b : Nat) (d : Dir) (foreign : ∀ name ∈ d.names, parseSegmentSeq name = none)
    (events : List SegmentEvent)
    (narrow : Runs.Along SegmentEvent.step (fun sw event => event.Narrow sw) (newSegmentedWAL d) events) :
    (parseSegmentSeq (segmentName a) = some a ∧ parseSegmentSeq (segmentName b) = some b ∧
        (segmentName a < segmentName b ↔ a < b) ↔ a < 10 ^ 8 ∧ b < 10 ^ 8) ∧
      ∀ moment, (Runs.exec SegmentEvent.step (newSegmentedWAL d) (events.take moment)).InOrder := by
  constructor
  · rw [parseSegmentSeq_iff, parseSegmentSeq_iff]
    constructor
    · exact fun ⟨first, second, _⟩ => ⟨first, second⟩
    · exact fun ⟨first, second⟩ => ⟨first, second, segmentName_lt_iff first second⟩
  · intro moment
    obtain ⟨older, last, numbered⟩ := Numbered.run foreign narrow moment
    exact ⟨numbered.listSegments, numbered.cutName_fresh⟩

/-- A directory with a foreign file, one batch and one cut. -/
theorem segment_names_one_cut :
    (7 < 10 ^ 8 ∧ 12 < 10 ^ 8 ↔ parseSegmentSeq (segmentName 7) = some 7 ∧
        parseSegmentSeq (segmentName 12) = some 12 ∧ (segmentName 7 < segmentName 12 ↔ 7 < 12)) ∧
      ∀ moment, (Runs.exec SegmentEvent.step (newSegmentedWAL { names := [['x']] })
        ([SegmentEvent.write [1], .cut].take moment)).InOrder := by
  have foreign : ∀ name ∈ ({ names := [['x']] } : Dir).names, parseSegmentSeq name = none := by decide +kernel
  have small : (SegmentEvent.cut).Narrow ((newSegmentedWAL { names := [['x']] }).write [1]) := by
    show lastSeq _ + 1 < 10 ^ 8
    rw [((Numbered.start foreign).write [1]).lastSeq]
    decide
  have both := segment_names_ordered 7 12 { names := [['x']] } foreign [.write [1], .cut] ⟨trivial, small, trivial⟩
  exact ⟨both.1.symm, both.2⟩

/-! ### The ninth digit -/

theorem Numbered.cuts (n : Nat) (small : n < 10 ^ 8) :
    Numbered (Runs.exec SegmentEvent.step (newSegmentedWAL {}) (List.replicate n .cut))
      (List.range n) n := by
  induction n with
  | zero => exact Numbered.start (by simp)
  | succ n ih =>
    have before := ih (by omega)
    rw [List.replicate_succ', Runs.exec_append, List.range_succ]
    exact before.cut (by rw [before.lastSeq]; exact small)

theorem Dir.listSegments_pairwise (d : Dir) : d.listSegments.Pairwise fun a b => ¬ b < a := by
  have sorted := @List.pairwise_mergeSort Name (fun a b => !decide (b < a)) (by
    intro a b c first second
    simp only [Bool.not_eq_true', decide_eq_false_iff_not, not_lt] at first second ⊢
    exact first.trans second) (by
    intro a b
    simpa using le_total a b) d.created
  exact sorted.imp (by simp)

section NineDigits

variable {sw : SegmentedWAL} {older : List Nat} {last : Nat}

theorem Numbered.created_cut (numbered : Numbered sw older last) :
    sw.cut.dir.created = (older ++ [last]).map segmentName ++ [segmentName (last + 1)] := by
  have fresh := numbered.cutName_fresh
  have next : sw.cutName = segmentName (last + 1) := by rw [cutName, numbered.lastSeq]
  rw [next] at fresh
  rw [← numbered.created, ← Numbered.created_openFile fresh, cut_eq, next]
  rfl

theorem Numbered.cut_unsorted (numbered : Numbered sw older last)
    (wrong : segmentName (last + 1) < segmentName last) : sw.cut.dir.listSegments ≠ sw.cut.dir.created := by
  intro same
  have sorted := sw.cut.dir.listSegments_pairwise
  rw [same, numbered.created_cut] at sorted
  exact (List.pairwise_append.mp sorted).2.2 _ (List.mem_map_of_mem (List.mem_append_right _ (List.mem_singleton_self _)))
    _ (List.mem_singleton_self _) wrong

/-- The number of the new name is read as `read`, and the name behind that is taken. -/
theorem Numbered.cut_taken (numbered : Numbered sw older last) {read : Nat}
    (wide : parseSegmentSeq (segmentName (last + 1)) = some read) (taken : read + 1 ∈ older) :
    sw.cut.cutName ∈ sw.cut.dir.names := by
  have final : sw.cut.segments.getLast? = some (segmentName (last + 1)) := by
    rw [cut_eq, cutName, numbered.lastSeq]
    exact List.getLast?_concat
  have next : sw.cut.cutName = segmentName (read + 1) := by
    unfold cutName SegmentedWAL.lastSeq
    rw [final, Option.bind_some, wide, Option.getD_some]
  have counted : segmentName (read + 1) ∈ sw.cut.dir.created := by
    rw [numbered.created_cut]
    exact List.mem_append_left _ (List.mem_map_of_mem (List.mem_append_left _ taken))
  rw [next]
  exact (List.mem_filter.mp counted).1

theorem cuts_wide {count : Nat} (wide : count = 10 ^ 8) (sw : SegmentedWAL)
    (reached : sw = Runs.exec SegmentEvent.step (newSegmentedWAL {}) (List.replicate count .cut)) :
    sw.dir.listSegments ≠ sw.dir.created ∧ sw.cutName ∈ sw.dir.names := by
  obtain ⟨n, rfl⟩ : ∃ n, count = n + 1 := ⟨count - 1, by omega⟩
  rw [List.replicate_succ', Runs.exec_append] at reached
  have before := Numbered.cuts n (by omega)
  subst reached
  refine ⟨before.cut_unsorted ?_, before.cut_taken ?_ (List.mem_range.mpr (show 10 ^ 7 + 1 < n by omega))⟩
  · have top : n = 99999999 := by omega
    rw [top]
    decide +kernel
  · rw [wide]
    exact parseSegmentSeq_wide

end NineDigits

/-- The cut behind `wal-99999999.log`: the new name sorts before it, its number is read as
10000000, and the next cut opens the file 10000001 again. -/
theorem ninth_digit_breaks_order :
    parseSegmentSeq (segmentName (10 ^ 8)) ≠ some (10 ^ 8) ∧
      ¬ segmentName (10 ^ 8 - 1) < segmentName (10 ^ 8) ∧
      ∀ sw, sw = Runs.exec SegmentEvent.step (newSegmentedWAL {}) (List.replicate (10 ^ 8) .cut) →
        sw.dir.listSegments ≠ sw.dir.created ∧ sw.cutName ∈ sw.dir.names := by
  refine ⟨by rw [parseSegmentSeq_wide]; decide, ?_, cuts_wide rfl⟩
  have wrong : segmentName (10 ^ 8) < segmentName (10 ^ 8 - 1) := by decide +kernel
  exact lt_asymm wrong

end Wal

end Kvgo

import Kvgo.Lib.Majority
import Kvgo.Raft.Message

/-! Majority decisions (`quorum/quorum.go`) and the progress tracker
(`tracker/tracker.go`). A map of the source is a partial function; the tracker
also keeps the list of its keys, the order in which `Visit` walks the map. -/

namespace Kvgo

inductive VoteResult where
  | votePending
  | voteLost
  | voteWon
  deriving DecidableEq, Repr

/-- The keys of `map[uint64]struct{}`: each voter once. -/
structure MajorityConfig where
  ids : List Nat
  nodup : ids.Nodup

namespace MajorityConfig

def size (c : MajorityConfig) : Nat := c.ids.length

def granted (c : MajorityConfig) (votes : Nat → Option Bool) : Nat :=
  c.ids.countP (fun id => votes id == some true)

def missing (c : MajorityConfig) (votes : Nat → Option Bool) : Nat :=
  c.ids.countP (fun id => votes id == none)

def voteResult (c : MajorityConfig) (votes : Nat → Option Bool) : VoteResult :=
  if c.size = 0 then .voteWon
  else
    let q := c.size / 2 + 1
    if q ≤ c.granted votes then .voteWon
    else if q ≤ c.granted votes + c.missing votes then .votePending
    else .voteLost

def ackedSlice (c : MajorityConfig) (ackedIndex : Nat → Option Nat) : List Nat :=
  let found := c.ids.filterMap ackedIndex
  List.replicate (c.size - found.length) 0 ++ found.reverse

def committedIndex (c : MajorityConfig) (ackedIndex : Nat → Option Nat) : Nat :=
  if c.size = 0 then 2 ^ 64 - 1
  else ((c.ackedSlice ackedIndex).insertionSort (· ≤ ·)).getD (c.size - (c.size / 2 + 1)) 0

theorem voteResult_won {c : MajorityConfig} {votes : Nat → Option Bool} (voters : c.size ≠ 0)
    (won : c.voteResult votes = .voteWon) : Majority c.ids (fun id => votes id = some true) := by
  simp only [voteResult, if_neg voters] at won
  have enough : c.size / 2 + 1 ≤ c.granted votes := by
    by_contra few
    rw [if_neg few] at won
    split at won <;> cases won
  have more : c.ids.length < 2 * c.granted votes := by
    have size : c.size = c.ids.length := rfl
    omega
  exact (Majority.of_countP more).mono (fun id _ yes => by simpa using yes)

theorem voteResult_of_majority {c : MajorityConfig} {votes : Nat → Option Bool}
    (most : Majority c.ids (fun id => votes id = some true)) : c.voteResult votes = .voteWon := by
  have more : c.ids.length < 2 * c.granted votes := by
    have count := Majority.iff_countP.mp most
    have same : c.ids.countP (fun id => decide (votes id = some true)) = c.granted votes :=
      List.countP_congr (fun id _ => by simp)
    rwa [same] at count
  have size : c.size = c.ids.length := rfl
  unfold voteResult
  split
  · rfl
  · dsimp only
    rw [if_pos (by omega)]

/-- In an ascending list, everything from a position on is at least what stands there. -/
theorem countP_sorted {s : List Nat} (sorted : s.Pairwise (· ≤ ·)) {pos i : Nat}
    (found : s[pos]? = some i) : s.length - pos ≤ s.countP (fun x => decide (i ≤ x)) := by
  have tail : ∀ x ∈ s.drop pos, i ≤ x := by
    have low := List.getElem?_eq_some_iff.mp found
    obtain ⟨inside, rfl⟩ := low
    rw [List.drop_eq_getElem_cons inside] at *
    intro x mem
    have order := sorted.drop (i := pos)
    rw [List.drop_eq_getElem_cons inside] at order
    rcases List.mem_cons.mp mem with rfl | later
    · exact le_rfl
    · exact (List.pairwise_cons.mp order).1 x later
  calc s.length - pos = (s.drop pos).length := by simp
    _ = (s.drop pos).countP (fun x => decide (i ≤ x)) := by
      rw [eq_comm, List.countP_eq_length]
      simpa using tail
    _ ≤ s.countP (fun x => decide (i ≤ x)) := (List.drop_sublist pos s).countP_le

/-- In an ascending list, what exceeds the element at a position stands behind it. -/
theorem countP_sorted_above {s : List Nat} (sorted : s.Pairwise (· ≤ ·)) {pos v i : Nat}
    (found : s[pos]? = some v) (above : v < i) :
    s.countP (fun x => decide (i ≤ x)) ≤ s.length - (pos + 1) := by
  obtain ⟨inside, rfl⟩ := List.getElem?_eq_some_iff.mp found
  have low : ∀ x ∈ s.take (pos + 1), x ≤ s[pos] := by
    intro x mem
    obtain ⟨k, bound, rfl⟩ := List.mem_iff_getElem.mp mem
    rw [List.length_take] at bound
    rw [List.getElem_take]
    rcases Nat.lt_or_ge k pos with before | after
    · exact List.pairwise_iff_getElem.mp sorted k pos (by omega) inside before
    · obtain rfl : k = pos := by omega
      exact le_rfl
  have front : (s.take (pos + 1)).countP (fun x => decide (i ≤ x)) = 0 := by
    rw [List.countP_eq_zero]
    intro x mem
    have := low x mem
    simp only [decide_eq_true_eq]
    omega
  calc s.countP (fun x => decide (i ≤ x))
      = (s.take (pos + 1)).countP (fun x => decide (i ≤ x)) +
        (s.drop (pos + 1)).countP (fun x => decide (i ≤ x)) := by
          rw [← List.countP_append, List.take_append_drop]
    _ ≤ (s.drop (pos + 1)).length := by
      rw [front, Nat.zero_add]
      exact List.countP_le_length
    _ = s.length - (pos + 1) := List.length_drop

theorem countP_ackedSlice (c : MajorityConfig) (ackedIndex : Nat → Option Nat) {i : Nat}
    (positive : 0 < i) : (c.ackedSlice ackedIndex).countP (fun x => decide (i ≤ x)) =
      c.ids.countP (fun id => decide (i ≤ (ackedIndex id).getD 0)) := by
  simp only [ackedSlice, List.countP_append, List.countP_reverse, List.countP_replicate]
  rw [if_neg (by simp; omega), Nat.zero_add, List.countP_filterMap]
  refine List.countP_congr (fun id _ => ?_)
  cases ackedIndex id with
  | none => simp; omega
  | some v => simp

theorem committedIndex_sorted {c : MajorityConfig} (ackedIndex : Nat → Option Nat) (voters : c.size ≠ 0) :
    ((c.ackedSlice ackedIndex).insertionSort (· ≤ ·)).length = c.size ∧
      ((c.ackedSlice ackedIndex).insertionSort (· ≤ ·))[c.size - (c.size / 2 + 1)]? =
        some (c.committedIndex ackedIndex) := by
  have short : (c.ids.filterMap ackedIndex).length ≤ c.size := List.length_filterMap_le _ _
  have length : ((c.ackedSlice ackedIndex).insertionSort (· ≤ ·)).length = c.size := by
    rw [List.length_insertionSort]
    simp only [ackedSlice, List.length_append, List.length_replicate, List.length_reverse]
    omega
  refine ⟨length, ?_⟩
  have inside : c.size - (c.size / 2 + 1) < ((c.ackedSlice ackedIndex).insertionSort (· ≤ ·)).length := by
    omega
  rw [committedIndex, if_neg voters, List.getElem?_eq_getElem inside, List.getD_eq_getElem _ _ inside]

theorem committedIndex_acked {c : MajorityConfig} {ackedIndex : Nat → Option Nat}
    (voters : c.size ≠ 0) (positive : 0 < c.committedIndex ackedIndex) :
    Majority c.ids (fun id => c.committedIndex ackedIndex ≤ (ackedIndex id).getD 0) := by
  obtain ⟨length, found⟩ := committedIndex_sorted ackedIndex voters
  have above := countP_sorted (List.pairwise_insertionSort _ _) found
  rw [(List.perm_insertionSort _ _).countP_eq, countP_ackedSlice c ackedIndex positive, length] at above
  have more : c.ids.length <
      2 * c.ids.countP (fun id => decide (c.committedIndex ackedIndex ≤ (ackedIndex id).getD 0)) := by
    have size : c.size = c.ids.length := rfl
    omega
  exact (Majority.of_countP more).mono (fun id _ yes => by simpa using yes)

theorem le_committedIndex {c : MajorityConfig} {ackedIndex : Nat → Option Nat} {i : Nat}
    (voters : c.size ≠ 0) (acked : Majority c.ids (fun id => i ≤ (ackedIndex id).getD 0)) :
    i ≤ c.committedIndex ackedIndex := by
  by_contra more
  obtain ⟨length, found⟩ := committedIndex_sorted ackedIndex voters
  have few := countP_sorted_above (List.pairwise_insertionSort _ _) found (Nat.lt_of_not_le more)
  rw [(List.perm_insertionSort _ _).countP_eq, countP_ackedSlice c ackedIndex (by omega), length] at few
  have size : c.size = c.ids.length := rfl
  have count := Majority.iff_countP.mp acked
  omega

def acks (c : MajorityConfig) (ackedIndex : Nat → Option Nat) : Set Nat :=
  {i | Majority c.ids (fun id => i ≤ (ackedIndex id).getD 0)}

theorem committedIndex_greatest {c : MajorityConfig} (ackedIndex : Nat → Option Nat) (voters : c.size ≠ 0) :
    IsGreatest (c.acks ackedIndex) (c.committedIndex ackedIndex) := by
  refine ⟨?_, fun i acked => le_committedIndex voters acked⟩
  rcases Nat.eq_zero_or_pos (c.committedIndex ackedIndex) with zero | positive
  · show Majority c.ids _
    have all : c.ids.countP (fun _ => true) = c.ids.length := List.countP_eq_length.mpr (fun _ _ => rfl)
    have some : c.ids.length ≠ 0 := voters
    exact (Majority.of_countP (p := fun _ => true) (by omega)).mono (fun id _ _ => by omega)
  · exact committedIndex_acked voters positive

theorem committedIndex_perm {c c' : MajorityConfig} (ackedIndex : Nat → Option Nat)
    (same : c.ids.Perm c'.ids) : c.committedIndex ackedIndex = c'.committedIndex ackedIndex := by
  have size : c.size = c'.size := same.length_eq
  by_cases none : c.size = 0
  · rw [committedIndex, committedIndex, if_pos none, if_pos (size ▸ none)]
  · have sets : c.acks ackedIndex = c'.acks ackedIndex := by
      ext i
      exact Majority.perm same
    have greatest := committedIndex_greatest ackedIndex (c := c') (size ▸ none)
    rw [← sets] at greatest
    exact (committedIndex_greatest ackedIndex none).unique greatest

end MajorityConfig

structure Progress where
  matchIndex : Nat := 0
  nextIndex : Nat := 0
  recentActive : Bool := false
  deriving DecidableEq, Repr

structure ProgressTracker where
  selfId : Nat
  voters : MajorityConfig
  ids : List Nat
  nodup : ids.Nodup
  progress : Nat → Option Progress
  votes : Nat → Option Bool

namespace ProgressTracker

def newTracker (selfId : Nat) (config : MajorityConfig) : ProgressTracker where
  selfId := selfId
  voters := config
  ids := [selfId]
  nodup := List.nodup_singleton _
  progress := Function.update (fun _ => none) selfId (some {})
  votes := fun _ => none

def initProgress (t : ProgressTracker) (id matchIndex nextIndex : Nat) : ProgressTracker :=
  { t with
    ids := if id ∈ t.ids then t.ids else t.ids ++ [id]
    nodup := by
      split
      · exact t.nodup
      · rename_i new
        simpa using t.nodup.concat new
    progress := Function.update t.progress id (some { matchIndex, nextIndex }) }

def isSingleton (t : ProgressTracker) : Bool := t.ids.length == 1

def resetVotes (t : ProgressTracker) : ProgressTracker := { t with votes := fun _ => none }

def recordVote (t : ProgressTracker) (id : Nat) (v : Bool) : ProgressTracker :=
  { t with votes := Function.update t.votes id (some v) }

def tallyVotes (t : ProgressTracker) : VoteResult := t.voters.voteResult t.votes

def committed (t : ProgressTracker) : Nat :=
  t.voters.committedIndex (fun id => (t.progress id).map Progress.matchIndex)

def quorumActive (t : ProgressTracker) : Bool :=
  t.voters.voteResult (fun id => (t.progress id).map Progress.recentActive) == .voteWon

def setProgress (t : ProgressTracker) (id : Nat) (p : Progress) : ProgressTracker :=
  { t with progress := Function.update t.progress id (some p) }

def visit (t : ProgressTracker) (f : Nat → Progress → Progress) : ProgressTracker :=
  { t with progress := fun id => (t.progress id).map (f id) }

section Fields

variable (t : ProgressTracker) (id : Nat) (v : Bool) (p : Progress) (f : Nat → Progress → Progress)

@[simp] theorem visit_voters : (t.visit f).voters = t.voters := rfl
@[simp] theorem visit_ids : (t.visit f).ids = t.ids := rfl
@[simp] theorem visit_votes : (t.visit f).votes = t.votes := rfl
@[simp] theorem resetVotes_voters : t.resetVotes.voters = t.voters := rfl
@[simp] theorem resetVotes_ids : t.resetVotes.ids = t.ids := rfl
@[simp] theorem resetVotes_votes : t.resetVotes.votes = fun _ => none := rfl
@[simp] theorem resetVotes_progress : t.resetVotes.progress = t.progress := rfl
@[simp] theorem recordVote_voters : (t.recordVote id v).voters = t.voters := rfl
@[simp] theorem recordVote_ids : (t.recordVote id v).ids = t.ids := rfl
@[simp] theorem recordVote_progress : (t.recordVote id v).progress = t.progress := rfl
@[simp] theorem setProgress_voters : (t.setProgress id p).voters = t.voters := rfl
@[simp] theorem setProgress_ids : (t.setProgress id p).ids = t.ids := rfl
@[simp] theorem setProgress_votes : (t.setProgress id p).votes = t.votes := rfl

end Fields

end ProgressTracker

def buildMajorityConfig (self : Nat) (peers : List Nat) : MajorityConfig where
  ids := (self :: peers).dedup
  nodup := List.nodup_dedup _

end Kvgo

import Kvgo.Raft.Quorum

/-! The vote result against its meaning. The source keeps two counters; what they decide is
compared here with every way in which the votes still missing could come in. -/

namespace Kvgo

namespace MajorityConfig

variable {c : MajorityConfig} {votes : Nat → Option Bool}

def Completes (c : MajorityConfig) (votes : Nat → Option Bool) (full : Nat → Bool) : Prop :=
  ∀ id ∈ c.ids, ∀ v, votes id = some v → full id = v

def Carries (c : MajorityConfig) (full : Nat → Bool) : Prop :=
  Majority c.ids (fun id => full id = true)

def fill (votes : Nat → Option Bool) (v : Bool) : Nat → Bool := fun id => (votes id).getD v

theorem completes_fill (c : MajorityConfig) (votes : Nat → Option Bool) (v : Bool) :
    c.Completes votes (fill votes v) := by
  intro id _ known vote
  simp [fill, vote]

theorem carries_iff {full : Nat → Bool} : c.Carries full ↔ c.size < 2 * c.ids.countP full := by
  have count : c.ids.countP (fun id => decide (full id = true)) = c.ids.countP full :=
    List.countP_congr (fun id _ => by simp)
  rw [Carries, Majority.iff_countP, count]
  rfl

theorem countP_fill_false (c : MajorityConfig) (votes : Nat → Option Bool) :
    c.ids.countP (fill votes false) = c.granted votes := by
  apply List.countP_congr
  intro id _
  cases vote : votes id with
  | none => simp [fill, vote]
  | some v => simp [fill, vote]

theorem countP_fill_true (c : MajorityConfig) (votes : Nat → Option Bool) :
    c.ids.countP (fill votes true) = c.granted votes + c.missing votes := by
  simp only [granted, missing]
  induction c.ids with
  | nil => rfl
  | cons id ids ih =>
    rw [List.countP_cons, List.countP_cons, List.countP_cons, ih]
    cases vote : votes id with
    | none => simp [fill, vote]; omega
    | some v => cases v <;> simp [fill, vote]; omega

theorem Completes.counts {full : Nat → Bool} (completes : c.Completes votes full) :
    c.granted votes ≤ c.ids.countP full ∧ c.ids.countP full ≤ c.granted votes + c.missing votes := by
  constructor
  · apply List.countP_mono_left
    intro id inside yes
    exact completes id inside true (by simpa using yes)
  · rw [← countP_fill_true]
    apply List.countP_mono_left
    intro id inside yes
    cases vote : votes id with
    | none => simp [fill, vote]
    | some v => simp [fill, vote, ← completes id inside v vote, yes]

theorem voteResult_eq (voters : c.size ≠ 0) : c.voteResult votes =
    if c.size < 2 * c.granted votes then .voteWon
    else if c.size < 2 * (c.granted votes + c.missing votes) then .votePending
    else .voteLost := by
  have half (n : Nat) : c.size / 2 + 1 ≤ n ↔ c.size < 2 * n := by omega
  simp only [voteResult, if_neg voters, half]

theorem voteResult_eq_won (voters : c.size ≠ 0) :
    c.voteResult votes = .voteWon ↔ ∀ full, c.Completes votes full → c.Carries full := by
  have decided : c.voteResult votes = .voteWon ↔ c.size < 2 * c.granted votes := by
    rw [voteResult_eq voters]
    split_ifs with won <;> simp [won]
  rw [decided]
  constructor
  · intro won full completes
    rw [carries_iff]
    have low := completes.counts.1
    omega
  · intro all
    have least := carries_iff.mp (all _ (completes_fill c votes false))
    rwa [countP_fill_false] at least

theorem voteResult_eq_lost (voters : c.size ≠ 0) :
    c.voteResult votes = .voteLost ↔ ∀ full, c.Completes votes full → ¬c.Carries full := by
  have decided : c.voteResult votes = .voteLost ↔
      ¬c.size < 2 * (c.granted votes + c.missing votes) := by
    rw [voteResult_eq voters]
    split_ifs with won open_
    · simp only [false_iff, not_not]
      omega
    · simp [open_]
    · simp [open_]
  rw [decided]
  constructor
  · intro lost full completes carried
    have high := completes.counts.2
    have most := carries_iff.mp carried
    omega
  · intro none most
    apply none _ (completes_fill c votes true)
    rwa [carries_iff, countP_fill_true]

theorem voteResult_eq_pending (voters : c.size ≠ 0) : c.voteResult votes = .votePending ↔
    (∃ full, c.Completes votes full ∧ c.Carries full) ∧
      ∃ full, c.Completes votes full ∧ ¬c.Carries full := by
  have rest : c.voteResult votes = .votePending ↔
      ¬c.voteResult votes = .voteLost ∧ ¬c.voteResult votes = .voteWon := by
    cases c.voteResult votes <;> simp
  rw [rest, voteResult_eq_lost voters, voteResult_eq_won voters]
  push Not
  rfl

theorem voteResult_congr {other : Nat → Option Bool} (same : ∀ id ∈ c.ids, votes id = other id) :
    c.voteResult votes = c.voteResult other := by
  have grants : c.granted votes = c.granted other :=
    List.countP_congr (fun id inside => by rw [same id inside])
  have rest : c.missing votes = c.missing other :=
    List.countP_congr (fun id inside => by rw [same id inside])
  simp only [voteResult, grants, rest]

theorem Completes.of_update {full : Nat → Bool} {id : Nat} {v : Bool} (missing : votes id = none)
    (completes : c.Completes (Function.update votes id (some v)) full) : c.Completes votes full := by
  intro other inside known vote
  have ne : other ≠ id := by
    rintro rfl
    rw [missing] at vote
    cases vote
  exact completes other inside known (by rw [Function.update_of_ne ne, vote])

theorem voteResult_update {id : Nat} (missing : votes id = none) (v : Bool) (voters : c.size ≠ 0)
    (decided : c.voteResult votes ≠ .votePending) :
    c.voteResult (Function.update votes id (some v)) = c.voteResult votes := by
  cases result : c.voteResult votes with
  | votePending => exact absurd result decided
  | voteLost =>
    rw [voteResult_eq_lost voters] at result ⊢
    exact fun full completes => result full (completes.of_update missing)
  | voteWon =>
    rw [voteResult_eq_won voters] at result ⊢
    exact fun full completes => result full (completes.of_update missing)

theorem voteResult_exact (c : MajorityConfig) (voters : c.size ≠ 0) (votes : Nat → Option Bool) :
    (c.voteResult votes = .voteWon ↔ ∀ full, c.Completes votes full → c.Carries full) ∧
      (c.voteResult votes = .voteLost ↔ ∀ full, c.Completes votes full → ¬c.Carries full) ∧
      (c.voteResult votes = .votePending ↔
        (∃ full, c.Completes votes full ∧ c.Carries full) ∧
          ∃ full, c.Completes votes full ∧ ¬c.Carries full) ∧
      (∀ other, (∀ id ∈ c.ids, votes id = other id) → c.voteResult votes = c.voteResult other) ∧
      (∀ t : ProgressTracker, t.voters = c → t.votes = votes → ∀ id v, votes id = none →
        t.tallyVotes ≠ .votePending → (t.recordVote id v).tallyVotes = t.tallyVotes) ∧
      ∀ other, c.voteResult votes = .voteWon → c.voteResult other = .voteWon →
        ∃ id ∈ c.ids, votes id = some true ∧ other id = some true := by
  refine ⟨voteResult_eq_won voters, voteResult_eq_lost voters, voteResult_eq_pending voters,
    fun other same => voteResult_congr same, ?_, ?_⟩
  · rintro t rfl rfl id v missing decided
    exact voteResult_update missing v voters decided
  · intro other won also
    exact (voteResult_won voters won).inter (voteResult_won voters also)

/-- Two of four have granted and one has refused: the fourth vote decides. -/
theorem voteResult_exact_four :
    (⟨[1, 2, 3, 4], by decide⟩ : MajorityConfig).size ≠ 0 ∧
      ((⟨[1, 2, 3, 4], by decide⟩ : MajorityConfig).voteResult
          (fun id => if id = 4 then none else some (id ≠ 3)) = .votePending ↔
        (∃ full, (⟨[1, 2, 3, 4], by decide⟩ : MajorityConfig).Completes
            (fun id => if id = 4 then none else some (id ≠ 3)) full ∧
            (⟨[1, 2, 3, 4], by decide⟩ : MajorityConfig).Carries full) ∧
          ∃ full, (⟨[1, 2, 3, 4], by decide⟩ : MajorityConfig).Completes
            (fun id => if id = 4 then none else some (id ≠ 3)) full ∧
            ¬(⟨[1, 2, 3, 4], by decide⟩ : MajorityConfig).Carries full) :=
  ⟨by decide, (voteResult_exact ⟨[1, 2, 3, 4], by decide⟩ (by decide) _).2.2.1⟩

end MajorityConfig

end Kvgo

import Mathlib

/-! Majorities of a fixed list of voters. -/

section

open Classical

variable {α : Type*} {voters : List α} {P Q : α → Prop}

def Majority (voters : List α) (P : α → Prop) : Prop :=
  voters.length < 2 * voters.countP (fun x => decide (P x))

namespace Majority

theorem of_countP {p : α → Bool} (more : voters.length < 2 * voters.countP p) :
    Majority voters (fun x => p x = true) := by
  simpa [Majority] using more

theorem iff_countP [decidable : DecidablePred P] :
    Majority voters P ↔ voters.length < 2 * voters.countP (fun x => @decide (P x) (decidable x)) := by
  unfold Majority
  have same : voters.countP (fun x => @decide (P x) (propDecidable (P x))) =
      voters.countP (fun x => @decide (P x) (decidable x)) := List.countP_congr (fun x _ => by simp)
  rw [same]

theorem mono (most : Majority voters P) (weaker : ∀ x ∈ voters, P x → Q x) :
    Majority voters Q := by
  have count : voters.countP (fun x => decide (P x)) ≤ voters.countP (fun x => decide (Q x)) :=
    List.countP_mono_left (fun x inside holds => by simpa using weaker x inside (by simpa using holds))
  unfold Majority at most ⊢
  omega

theorem inter (most : Majority voters P) (also : Majority voters Q) :
    ∃ x ∈ voters, P x ∧ Q x := by
  by_contra disjoint
  push Not at disjoint
  have count : voters.countP (fun x => decide (P x)) ≤ voters.countP (fun x => decide (¬decide (Q x))) :=
    List.countP_mono_left (fun x inside holds => by simpa using disjoint x inside (by simpa using holds))
  have split := List.length_eq_countP_add_countP (fun x => decide (Q x)) (l := voters)
  unfold Majority at most also
  omega

theorem exists_ne (nodup : voters.Nodup) (many : 2 ≤ voters.length)
    (most : Majority voters P) (self : α) : ∃ x ∈ voters, x ≠ self ∧ P x := by
  by_contra alone
  push Not at alone
  have few : voters.countP (fun x => decide (P x)) ≤ voters.count self := by
    rw [List.count_eq_countP]
    refine List.countP_mono_left (fun x inside holds => ?_)
    by_contra other
    exact alone x inside (by simpa using other) (by simpa using holds)
  have once := List.nodup_iff_count_le_one.mp nodup self
  unfold Majority at most
  omega

theorem perm {other : List α} (same : voters.Perm other) :
    Majority voters P ↔ Majority other P := by
  unfold Majority
  rw [same.length_eq, same.countP_eq]

end Majority

end

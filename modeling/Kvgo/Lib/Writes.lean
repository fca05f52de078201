import Mathlib

/-! Sequences of assignments to a partial map. What a key holds at the end is decided by
the last assignment to it, so a part of the history may be assigned a second time. -/

namespace Writes

variable {κ ν : Type*} [DecidableEq κ]

def assign (before : κ → Option ν) (writes : List (κ × ν)) : κ → Option ν :=
  writes.foldl (fun m w => Function.update m w.1 (some w.2)) before

def last (writes : List (κ × ν)) : κ → Option ν := assign (fun _ => none) writes

@[simp] theorem assign_nil (before : κ → Option ν) : assign before [] = before := rfl

theorem assign_append (before : κ → Option ν) (front back : List (κ × ν)) :
    assign before (front ++ back) = assign (assign before front) back :=
  List.foldl_append

theorem assign_snoc (before : κ → Option ν) (writes : List (κ × ν)) (w : κ × ν) :
    assign before (writes ++ [w]) = Function.update (assign before writes) w.1 (some w.2) :=
  assign_append before writes [w]

theorem assign_eq (before : κ → Option ν) (writes : List (κ × ν)) (key : κ) :
    assign before writes key = (last writes key).or (before key) := by
  induction writes using List.reverseRecOn with
  | nil => rfl
  | append_singleton writes w ih =>
    rw [last, assign_snoc, assign_snoc, Function.update_apply, Function.update_apply]
    split
    · rfl
    · exact ih

theorem last_append (front back : List (κ × ν)) (key : κ) :
    last (front ++ back) key = (last back key).or (last front key) := by
  rw [last, assign_append, assign_eq]
  rfl

theorem last_snoc (writes : List (κ × ν)) (w : κ × ν) (key : κ) :
    last (writes ++ [w]) key = if key = w.1 then some w.2 else last writes key := by
  rw [last, assign_snoc, Function.update_apply]
  rfl

theorem last_eq_none {writes : List (κ × ν)} {key : κ} :
    last writes key = none ↔ ∀ w ∈ writes, w.1 ≠ key := by
  induction writes using List.reverseRecOn with
  | nil => simp [last]
  | append_singleton writes w ih =>
    rw [last_snoc]
    by_cases same : key = w.1
    · simp only [if_pos same, reduceCtorEq, false_iff]
      exact fun none => none w (by simp) same.symm
    · rw [if_neg same, ih]
      constructor
      · intro none v inside
        rcases List.mem_append.mp inside with old | new
        · exact none v old
        · rw [List.mem_singleton.mp new]; exact Ne.symm same
      · exact fun none v inside => none v (List.mem_append_left _ inside)

theorem last_filter (writes : List (κ × ν)) (group : κ → Bool) {key : κ} (member : group key = true) :
    last (writes.filter (fun w => group w.1)) key = last writes key := by
  induction writes using List.reverseRecOn with
  | nil => rfl
  | append_singleton writes w ih =>
    rw [List.filter_append, last_append, last_snoc, ih]
    by_cases same : key = w.1
    · have kept : [w].filter (fun w => group w.1) = [w] := by simp [← same, member]
      rw [if_pos same, kept, ← List.nil_append [w], last_snoc, if_pos same, Option.some_or]
    · have gone : last ([w].filter (fun w => group w.1)) key = none :=
        last_eq_none.mpr (fun v inside => by
          rw [List.mem_singleton.mp (List.mem_of_mem_filter inside)]
          exact Ne.symm same)
      rw [if_neg same, gone, Option.none_or]

/-- Assigning the end of the history again, from any point that the map has passed, gives
the whole history. -/
theorem last_replay (writes : List (κ × ν)) {start reached : Nat} (passed : start ≤ reached) (key : κ) :
    (last (writes.drop start) key).or (last (writes.take reached) key) = last writes key := by
  have whole : last writes key = (last (writes.drop start) key).or (last (writes.take start) key) := by
    rw [← last_append, List.take_append_drop]
  cases later : last (writes.drop start) key with
  | some v => rw [whole, later, Option.some_or, Option.some_or]
  | none =>
    -- no assignment to the key after `start`, so the two prefixes agree on it
    have between : last ((writes.drop start).take (reached - start)) key = none :=
      last_eq_none.mpr (fun w inside => last_eq_none.mp later w (List.mem_of_mem_take inside))
    have parts : writes.take reached =
        writes.take start ++ (writes.drop start).take (reached - start) := by
      rw [← List.take_add, Nat.add_sub_cancel' passed]
    rw [whole, later, parts, last_append, between]
    simp

end Writes

import Kvgo.Engine.ReadBack

/-! What loading does to a shard: one key is cached, the position moves, and a value that was found is
found for good. -/

namespace Kvgo

namespace Engine

def Shard.load (s : Shard) (key : Bytes) : Shard := (s.get key).2

namespace Shard

theorem readValue_data (s : Shard) (offset size : Nat) : (s.readValue offset size).2.data = s.data := by
  unfold readValue
  split
  · rfl
  dsimp only
  generalize (if 0 < offset then offset else s.position) = place
  split
  · rfl
  split <;> rfl

/-- A load touches its own entry only. -/
theorem load_data {s : Shard} {key other : Bytes} (ne : other ≠ key) : (s.load key).data other = s.data other := by
  unfold load get
  cases found : s.data key with
  | none => rfl
  | some ve =>
    dsimp only
    unfold getValue
    cases ve.payload with
    | some value => rfl
    | none =>
      dsimp only
      by_cases empty : ve.size = 0
      · rw [if_pos empty]
        exact (setEntry_data _ _ _ _).trans (if_neg ne)
      rw [if_neg empty]
      have data := s.readValue_data ve.offset ve.size
      generalize s.readValue ve.offset ve.size = result at data
      obtain ⟨answer, s'⟩ := result
      cases answer with
      | error e => exact congrFun data other
      | ok value => exact (setEntry_data _ _ _ _).trans ((if_neg ne).trans (congrFun data other))

theorem load_held {s : Shard} {key : Bytes} {ve : ValueEntry} {value : Bytes} (found : s.data key = some ve)
    (held : ve.payload = some value) (other : Bytes) : (s.load other).data key = some ve := by
  by_cases same : key = other
  · subst same
    have answer : s.get key = (.ok (some value), s) := by
      simp only [get, found, getValue, held]
    rw [load, answer, found]
  · rw [load_data same, found]

theorem loads_held {s : Shard} {key : Bytes} {ve : ValueEntry} {value : Bytes} (found : s.data key = some ve)
    (held : ve.payload = some value) (order : List Bytes) : (Runs.exec load s order).data key = some ve := by
  induction order generalizing s with
  | nil => exact found
  | cons other rest ih => exact ih (load_held found held other)

end Shard

section

variable {s : Shard} {latest : Bytes → Option Bytes} {key value : Bytes} {order : List Bytes}

theorem Backed.loads (backed : Backed s latest) (finds : Runs.Along Shard.load Shard.Finds s order) :
    Backed (Runs.exec Shard.load s order) latest :=
  Runs.invariant Shard.load (fun s => Backed s latest) (fun _ _ backed finds => (backed.find finds).2) backed
    finds

theorem Backed.load_caches (backed : Backed s latest) (finds : s.Finds key) (last : latest key = some value) :
    ∃ ve, (s.load key).data key = some ve ∧ ve.payload = some value := by
  obtain ⟨ve, position, _, read⟩ := backed.get_eq finds last
  refine ⟨{ ve with payload := some value }, ?_, rfl⟩
  rw [Shard.load, read]
  exact (Shard.setEntry_data _ _ _ _).trans (if_pos rfl)

theorem Backed.loads_cache (backed : Backed s latest) (finds : Runs.Along Shard.load Shard.Finds s order)
    (inside : key ∈ order) (last : latest key = some value) :
    ∃ ve, (Runs.exec Shard.load s order).data key = some ve ∧ ve.payload = some value := by
  induction order generalizing s with
  | nil => cases inside
  | cons other rest ih =>
    rcases List.mem_cons.mp inside with rfl | later
    · obtain ⟨ve, found, held⟩ := backed.load_caches finds.1 last
      exact ⟨ve, Shard.loads_held found held rest, held⟩
    · exact ih (backed.find finds.1).2 finds.2 later

/-- A load that does not find its bytes fails, or caches others. -/
theorem Backed.get_lost (backed : Backed s latest) (last : latest key = some value) (lost : ¬s.Finds key) :
    (∃ e, (s.get key).1 = .error e) ∨
      ∃ ve other, (s.load key).data key = some ve ∧ ve.payload = some other ∧ other ≠ value := by
  unfold Shard.Finds at lost
  push Not at lost
  obtain ⟨ve, found, ⟨payload, positive, zero⟩, differs⟩ := lost
  have here := backed key
  simp only [Option.mem_def] at found
  simp only [found, last, Option.some.injEq, payload, reduceCtorEq, false_or, true_and] at here
  obtain ⟨_, rfl, denotes⟩ := here
  have size : ve.size = value.length := denotes.size
  have start : s.valueFile.take ve.size = value := by
    have slice : (s.valueFile.drop ve.offset).take value.length = value := denotes.slice
    rwa [zero, List.drop_zero, ← size] at slice
  rw [start] at differs
  have place : (if 0 < ve.offset then ve.offset else s.position) = s.position := if_neg (by omega)
  unfold Shard.load
  simp only [Shard.get, found, Shard.getValue, payload, if_neg (show ¬ve.size = 0 by omega), Shard.readValue,
    if_neg (show ¬(2 ^ 63 ≤ ve.offset ∨ ve.size = 0) by omega), place]
  by_cases none : s.valueFile.drop s.position = []
  · left
    exact ⟨.eof, by rw [if_pos none]⟩
  by_cases few : (s.valueFile.drop s.position).length < ve.size
  · left
    exact ⟨.corruption, by rw [if_neg none, if_pos few]⟩
  · right
    rw [if_neg none, if_neg few]
    exact ⟨_, _, (Shard.setEntry_data _ _ _ _).trans (if_pos rfl), rfl, differs⟩

end

end Engine

end Kvgo

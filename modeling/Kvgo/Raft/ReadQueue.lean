import Kvgo.Raft.ReadOnly

/-! The read queue as a list of requests with their acks. As long as no two waiting requests
share their context, the map and the queue of `read_only.go` are one list, `recvAck` marks one
of its elements and `advance` takes a part of it from the front. -/

namespace Kvgo

/-- A request that has been asked, and the nodes that acknowledged a heartbeat for it. -/
structure Inquiry where
  req : Message
  acks : Nat → Option Bool

namespace Inquiry

def context (a : Inquiry) : Bytes := a.req.context

def hear (id : Nat) (ctx : Bytes) (a : Inquiry) : Inquiry :=
  if a.context = ctx then { a with acks := Function.update a.acks id (some true) } else a

@[simp] theorem hear_req (id : Nat) (ctx : Bytes) (a : Inquiry) : (a.hear id ctx).req = a.req := by
  unfold hear
  split <;> rfl

@[simp] theorem hear_context (id : Nat) (ctx : Bytes) (a : Inquiry) : (a.hear id ctx).context = a.context := by
  simp [context]

theorem hear_of_ne {id : Nat} {ctx : Bytes} {a : Inquiry} (other : a.context ≠ ctx) : a.hear id ctx = a := if_neg other

theorem map_hear_of_not_mem {id : Nat} {ctx : Bytes} {l : List Inquiry} (outside : ctx ∉ l.map context) :
    l.map (hear id ctx) = l := by
  induction l with
  | nil => rfl
  | cons a l ih =>
    simp only [List.map_cons, List.mem_cons, not_or] at outside
    rw [List.map_cons, hear_of_ne (Ne.symm outside.1), ih outside.2]

theorem map_context_hear (id : Nat) (ctx : Bytes) (l : List Inquiry) :
    (l.map (hear id ctx)).map context = l.map context := by
  simp [Function.comp_def]

end Inquiry

namespace ReadOnly

open Inquiry

structure Holds (ro : ReadOnly) (waiting : List Inquiry) : Prop where
  queue : ro.readIndexQueue = waiting.map context
  distinct : (waiting.map context).Nodup
  found : ∀ a ∈ waiting, ∃ index, ro.pendingReadIndex a.context = some ⟨a.req, index, a.acks⟩
  only : ∀ ctx, ctx ∉ waiting.map context → ro.pendingReadIndex ctx = none

variable {ro ro' : ReadOnly} {waiting : List Inquiry} {m : Message}

theorem holds_new : Holds newReadOnly [] := ⟨rfl, by simp, by simp, fun _ _ => rfl⟩

theorem Holds.fresh (holds : Holds ro waiting) {ctx : Bytes} (none : ro.pendingReadIndex ctx = none) :
    ctx ∉ waiting.map context := by
  intro inside
  obtain ⟨a, here, rfl⟩ := List.mem_map.mp inside
  obtain ⟨index, found⟩ := holds.found a here
  rw [none] at found
  cases found

theorem Holds.addRequest (holds : Holds ro waiting) {i : Nat} (free : ro.pendingReadIndex m.context = none) :
    Holds (ro.addRequest i m) (waiting ++ [⟨m, fun _ => none⟩]) := by
  have outside := holds.fresh free
  unfold ReadOnly.addRequest
  rw [free]
  refine ⟨?_, ?_, ?_, ?_⟩
  · simp [holds.queue, context]
  · rw [List.map_append, List.nodup_append]
    refine ⟨holds.distinct, by simp, ?_⟩
    rintro ctx inside ctx' last rfl
    rw [List.map_singleton, List.mem_singleton] at last
    exact outside (by rw [← show ctx = m.context from last]; exact inside)
  · intro a inside
    rcases List.mem_append.mp inside with old | new
    · obtain ⟨index, found⟩ := holds.found a old
      refine ⟨index, ?_⟩
      have other : a.context ≠ m.context := fun same => outside (same ▸ List.mem_map_of_mem old)
      simpa [Function.update_of_ne other] using found
    · obtain rfl := List.mem_singleton.mp new
      exact ⟨i, by simp [context]⟩
  · intro ctx away
    rw [List.map_append, List.mem_append, not_or] at away
    have other : ctx ≠ m.context := fun same => away.2 (by simp [context, same])
    simpa [Function.update_of_ne other] using holds.only ctx away.1

theorem Holds.recvAck (holds : Holds ro waiting) (id : Nat) (ctx : Bytes) :
    Holds (ro.recvAck id ctx).1 (waiting.map (hear id ctx)) := by
  unfold ReadOnly.recvAck
  cases here : ro.pendingReadIndex ctx with
  | none =>
    rw [map_hear_of_not_mem (holds.fresh here)]
    exact holds
  | some rs =>
    refine ⟨holds.queue.trans (map_context_hear id ctx waiting).symm, ?_, ?_, ?_⟩
    · rw [map_context_hear]
      exact holds.distinct
    · intro b inside
      obtain ⟨a, old, rfl⟩ := List.mem_map.mp inside
      obtain ⟨index, found⟩ := holds.found a old
      refine ⟨index, ?_⟩
      rw [hear_context]
      by_cases same : a.context = ctx
      · subst same
        rw [here] at found
        obtain rfl := Option.some.inj found
        simp [hear]
      · rw [hear_of_ne same]
        simpa [Function.update_of_ne same] using found
    · intro other away
      rw [map_context_hear] at away
      have none := holds.only other away
      have differs : other ≠ ctx := by
        rintro rfl
        rw [here] at none
        cases none
      simpa [Function.update_of_ne differs] using none

/-- The acks that `recvAck` returns are those of the request it marks. -/
theorem Holds.recvAck_acks (holds : Holds ro waiting) {id : Nat} {a : Inquiry} (inside : a ∈ waiting) :
    (ro.recvAck id a.context).2 = (a.hear id a.context).acks := by
  obtain ⟨index, found⟩ := holds.found a inside
  unfold ReadOnly.recvAck
  rw [found]
  simp [hear]

section Scan

variable {pending : Bytes → Option ReadIndexStatus} {ctx : Bytes}

/-- The loop of `advance` stops behind the context it looks for. -/
theorem scan_before {before after : List Bytes} (known : ∀ c ∈ before ++ [ctx], (pending c).isSome)
    (new : ctx ∉ before) :
    scan pending ctx (before ++ ctx :: after) = .ok ((before ++ [ctx]).filterMap pending, some after) := by
  induction before with
  | nil =>
    obtain ⟨rs, here⟩ := Option.isSome_iff_exists.mp (known ctx (by simp))
    simp [scan, here]
  | cons c before ih =>
    obtain ⟨rs, here⟩ := Option.isSome_iff_exists.mp (known c (by simp))
    rw [List.mem_cons, not_or] at new
    have later := ih (fun c inside => known c (List.mem_cons_of_mem _ inside)) new.2
    rw [List.cons_append, scan, here]
    dsimp only
    rw [if_neg (Ne.symm new.1), later, List.cons_append, List.filterMap_cons_some here]
    rfl

theorem scan_all {queue : List Bytes} (known : ∀ c ∈ queue, (pending c).isSome) (new : ctx ∉ queue) :
    scan pending ctx queue = .ok (queue.filterMap pending, none) := by
  induction queue with
  | nil => rfl
  | cons c queue ih =>
    obtain ⟨rs, here⟩ := Option.isSome_iff_exists.mp (known c (by simp))
    rw [List.mem_cons, not_or] at new
    have later := ih (fun c inside => known c (List.mem_cons_of_mem _ inside)) new.2
    rw [scan, here]
    dsimp only
    rw [if_neg (Ne.symm new.1), later, List.filterMap_cons_some here]
    rfl

theorem filterMap_req {asked : List Inquiry}
    (found : ∀ a ∈ asked, ∃ index, pending a.context = some ⟨a.req, index, a.acks⟩) :
    ((asked.map context).filterMap pending).map ReadIndexStatus.req = asked.map Inquiry.req := by
  induction asked with
  | nil => rfl
  | cons a asked ih =>
    obtain ⟨index, here⟩ := found a (by simp)
    rw [List.map_cons, List.filterMap_cons_some here, List.map_cons, List.map_cons,
      ih (fun b inside => found b (by simp [inside]))]

theorem known_of_found {asked : List Inquiry}
    (found : ∀ a ∈ asked, ∃ index, pending a.context = some ⟨a.req, index, a.acks⟩) :
    ∀ c ∈ asked.map context, (pending c).isSome := by
  intro c inside
  obtain ⟨a, here, rfl⟩ := List.mem_map.mp inside
  obtain ⟨index, there⟩ := found a here
  rw [there]
  rfl

theorem scan_found (found : ∀ a ∈ waiting, ∃ index, pending a.context = some ⟨a.req, index, a.acks⟩)
    (inside : ctx ∈ waiting.map context) : ∃ before last after rss, waiting = before ++ last :: after ∧
      last.context = ctx ∧ scan pending ctx (waiting.map context) = .ok (rss, some (after.map context)) ∧
      rss.map ReadIndexStatus.req = (before ++ [last]).map Inquiry.req := by
  obtain ⟨front, back, split, new⟩ := List.eq_append_cons_of_mem inside
  obtain ⟨before, tail, rfl, rfl, rest⟩ := List.map_eq_append_iff.mp split
  obtain ⟨last, after, rfl, rfl, rfl⟩ := List.map_eq_cons_iff.mp rest
  have front : ∀ a ∈ before ++ [last], ∃ index, pending a.context = some ⟨a.req, index, a.acks⟩ := by
    intro a here
    refine found a ?_
    rw [List.append_cons]
    exact List.mem_append_left _ here
  have known := known_of_found front
  rw [List.map_append] at known
  refine ⟨before, last, after, _, rfl, rfl, by rw [split]; exact scan_before known new, ?_⟩
  have reqs := filterMap_req front
  rwa [List.map_append] at reqs

theorem scan_missed (found : ∀ a ∈ waiting, ∃ index, pending a.context = some ⟨a.req, index, a.acks⟩)
    (outside : ctx ∉ waiting.map context) : ∃ rss, scan pending ctx (waiting.map context) = .ok (rss, none) :=
  ⟨_, scan_all (known_of_found found) outside⟩

end Scan

def delete (rss : List ReadIndexStatus) (pending : Bytes → Option ReadIndexStatus) :
    Bytes → Option ReadIndexStatus :=
  rss.foldl (fun pending rs => Function.update pending rs.req.context none) pending

theorem delete_apply (rss : List ReadIndexStatus) (pending : Bytes → Option ReadIndexStatus) (ctx : Bytes) :
    delete rss pending ctx = if ctx ∈ rss.map (fun rs => rs.req.context) then none else pending ctx := by
  induction rss generalizing pending with
  | nil => simp [delete]
  | cons rs rss ih =>
    rw [delete, List.foldl_cons]
    change delete rss _ ctx = _
    rw [ih]
    by_cases later : ctx ∈ rss.map (fun rs => rs.req.context)
    · rw [if_pos later, if_pos (by simp only [List.map_cons, List.mem_cons]; exact .inr later)]
    · rw [if_neg later]
      by_cases same : ctx = rs.req.context
      · subst same
        simp
      · rw [Function.update_of_ne same, if_neg (by simp only [List.map_cons, List.mem_cons, not_or]; exact ⟨same, later⟩)]

/-- `advance` answers a part of the queue from the front, up to the request it is called for. -/
theorem Holds.advance (holds : Holds ro waiting) {rss : List ReadIndexStatus} (ok : ro.advance m = .ok (ro', rss)) :
    ∃ done rest, waiting = done ++ rest ∧ rss.map ReadIndexStatus.req = done.map Inquiry.req ∧ Holds ro' rest ∧
      m.context ∉ rest.map context := by
  unfold ReadOnly.advance at ok
  rw [holds.queue] at ok
  by_cases inside : m.context ∈ waiting.map context
  · obtain ⟨before, last, after, statuses, split, target, scanned, reqs⟩ := scan_found holds.found inside
    rw [scanned] at ok
    cases ok
    have distinct := holds.distinct
    rw [split, List.append_cons, List.map_append, List.nodup_append] at distinct
    have apart : ∀ ctx ∈ after.map context, ctx ∉ (before ++ [last]).map context :=
      fun ctx right left => distinct.2.2 ctx left ctx right rfl
    have deleted : rss.map (fun rs => rs.req.context) = (before ++ [last]).map context := by
      have contexts := congrArg (List.map Message.context) reqs
      rw [List.map_map, List.map_map] at contexts
      exact contexts
    refine ⟨before ++ [last], after, by rw [split, List.append_cons], reqs, ⟨rfl, distinct.2.1, ?_, ?_⟩, ?_⟩
    · intro a here
      obtain ⟨index, found⟩ := holds.found a (by simp [split, here])
      refine ⟨index, ?_⟩
      show delete rss ro.pendingReadIndex _ = _
      rw [delete_apply, deleted, if_neg (apart _ (List.mem_map_of_mem here))]
      exact found
    · intro ctx away
      show delete rss ro.pendingReadIndex _ = _
      rw [delete_apply, deleted]
      split
      · rfl
      · rename_i kept
        refine holds.only ctx ?_
        rw [split, List.append_cons, List.map_append, List.mem_append, not_or]
        exact ⟨kept, away⟩
    · intro right
      exact apart _ right (by simp [← target])
  · obtain ⟨statuses, scanned⟩ := scan_missed holds.found inside
    rw [scanned] at ok
    cases ok
    exact ⟨[], waiting, rfl, rfl, holds, inside⟩

end ReadOnly

end Kvgo

import Kvgo.Raft.ReadQueue

/-! Any sequence of calls of the read queue. -/

namespace Kvgo

inductive ReadOnlyCall where
  | addRequest (i : Nat) (m : Message)
  | recvAck (id : Nat) (ctx : Bytes)
  | advance (m : Message)

def ReadOnlyCall.index? : ReadOnlyCall → Option Nat
  | .addRequest i _ => some i
  | _ => none

namespace ReadOnly

def call (r : ReadOnly) : ReadOnlyCall → Except Panic ReadOnly
  | .addRequest i m => .ok (r.addRequest i m)
  | .recvAck id ctx => .ok (r.recvAck id ctx).1
  | .advance m => (r.advance m).map Prod.fst

def calls (r : ReadOnly) : List ReadOnlyCall → Except Panic ReadOnly
  | [] => .ok r
  | c :: rest => r.call c >>= fun r' => r'.calls rest

def indices (r : ReadOnly) : List Nat :=
  (r.readIndexQueue.filterMap r.pendingReadIndex).map ReadIndexStatus.index

/-- What `advance` is meant to do: answer the queue up to the context and take that part out, or
nothing if the context does not wait. -/
structure Advances (r : ReadOnly) (m : Message) : Prop where
  found : ∀ before after, r.readIndexQueue = before ++ m.context :: after → ∃ r' rss,
    r.advance m = .ok (r', rss) ∧ rss.map some = (before ++ [m.context]).map r.pendingReadIndex ∧
      r'.readIndexQueue = after ∧
      ∀ ctx, r'.pendingReadIndex ctx = if ctx ∈ before ++ [m.context] then none else r.pendingReadIndex ctx
  missed : m.context ∉ r.readIndexQueue → r.advance m = .ok (r, [])

structure Matched (r : ReadOnly) : Prop where
  nodup : r.readIndexQueue.Nodup
  keys : ∀ ctx, ctx ∈ r.readIndexQueue ↔ (r.pendingReadIndex ctx).isSome
  own : ∀ ctx rs, r.pendingReadIndex ctx = some rs → rs.req.context = ctx

theorem matched_new : Matched newReadOnly := ⟨List.nodup_nil, by simp [newReadOnly], by simp [newReadOnly]⟩

section

variable {pending : Bytes → Option ReadIndexStatus}

theorem map_some_filterMap {queue : List Bytes} (known : ∀ c ∈ queue, (pending c).isSome) :
    (queue.filterMap pending).map some = queue.map pending := by
  induction queue with
  | nil => rfl
  | cons c queue ih =>
    obtain ⟨rs, here⟩ := Option.isSome_iff_exists.mp (known c (by simp))
    rw [List.filterMap_cons_some here, List.map_cons, List.map_cons, here,
      ih (fun c inside => known c (List.mem_cons_of_mem _ inside))]

end

variable {r r' : ReadOnly}

theorem Matched.contexts (matched : Matched r) {queue : List Bytes} (inside : ∀ ctx ∈ queue, ctx ∈ r.readIndexQueue) :
    (queue.filterMap r.pendingReadIndex).map (fun rs => rs.req.context) = queue := by
  induction queue with
  | nil => rfl
  | cons ctx queue ih =>
    obtain ⟨rs, here⟩ := Option.isSome_iff_exists.mp ((matched.keys ctx).mp (inside ctx (by simp)))
    rw [List.filterMap_cons_some here, List.map_cons, matched.own ctx rs here,
      ih (fun ctx later => inside ctx (by simp [later]))]

theorem Matched.advances (matched : Matched r) (m : Message) : Advances r m where
  found before after split := by
    have nodup := matched.nodup
    rw [split] at nodup
    have new : m.context ∉ before := fun inside =>
      (List.nodup_append.mp nodup).2.2 _ inside _ (by simp) rfl
    have waiting : ∀ c ∈ before ++ [m.context], c ∈ r.readIndexQueue := fun c inside => by
      rw [split, List.append_cons]
      exact List.mem_append_left _ inside
    have known : ∀ c ∈ before ++ [m.context], (r.pendingReadIndex c).isSome := fun c inside =>
      (matched.keys c).mp (waiting c inside)
    refine ⟨_, _, by rw [advance, split, scan_before known new]; rfl, map_some_filterMap known, rfl, fun ctx => ?_⟩
    show delete _ r.pendingReadIndex ctx = _
    rw [delete_apply, matched.contexts waiting]
  missed outside := by
    rw [advance, scan_all (fun c inside => (matched.keys c).mp inside) outside]
    rfl

theorem addRequest_waiting {i : Nat} {m : Message} {rs : ReadIndexStatus}
    (here : r.pendingReadIndex m.context = some rs) : r.addRequest i m = r := by
  simp only [ReadOnly.addRequest, here]

theorem addRequest_queue {i : Nat} {m : Message} (here : r.pendingReadIndex m.context = none) :
    (r.addRequest i m).readIndexQueue = r.readIndexQueue ++ [m.context] := by
  simp only [ReadOnly.addRequest, here]

theorem addRequest_pending {i : Nat} {m : Message} (here : r.pendingReadIndex m.context = none) (ctx : Bytes) :
    (r.addRequest i m).pendingReadIndex ctx =
      if ctx = m.context then some ⟨m, i, fun _ => none⟩ else r.pendingReadIndex ctx := by
  simp only [ReadOnly.addRequest, here, Function.update_apply]

theorem recvAck_unknown {id : Nat} {ctx : Bytes} (here : r.pendingReadIndex ctx = none) :
    (r.recvAck id ctx).1 = r := by
  simp only [ReadOnly.recvAck, here]

theorem recvAck_queue (r : ReadOnly) (id : Nat) (ctx : Bytes) :
    (r.recvAck id ctx).1.readIndexQueue = r.readIndexQueue := by
  unfold ReadOnly.recvAck
  cases r.pendingReadIndex ctx <;> rfl

theorem recvAck_pending (r : ReadOnly) (id : Nat) (ctx other : Bytes) :
    (r.recvAck id ctx).1.pendingReadIndex other = (r.pendingReadIndex other).map (fun rs =>
      if other = ctx then { rs with acks := Function.update rs.acks id (some true) } else rs) := by
  cases here : r.pendingReadIndex ctx with
  | none =>
    rw [recvAck_unknown here]
    by_cases same : other = ctx
    · simp [same, here]
    · simp [same]
  | some rs =>
    simp only [ReadOnly.recvAck, here, Function.update_apply]
    by_cases same : other = ctx
    · simp [same, here]
    · simp [same]

theorem Matched.fresh (matched : Matched r) {ctx : Bytes} (here : r.pendingReadIndex ctx = none) :
    ctx ∉ r.readIndexQueue := by
  rw [matched.keys, here]
  simp

theorem Matched.addRequest (matched : Matched r) (i : Nat) (m : Message) : Matched (r.addRequest i m) := by
  cases here : r.pendingReadIndex m.context with
  | some rs =>
    rw [addRequest_waiting here]
    exact matched
  | none =>
    have new := matched.fresh here
    refine ⟨?_, fun ctx => ?_, fun ctx rs found => ?_⟩
    · rw [addRequest_queue here]
      exact List.nodup_append.mpr ⟨matched.nodup, List.nodup_singleton _, fun a old b last same =>
        new (List.mem_singleton.mp last ▸ same ▸ old)⟩
    · rw [addRequest_queue here, addRequest_pending here, List.mem_append, List.mem_singleton, matched.keys]
      by_cases same : ctx = m.context
      · simp [same]
      · simp [same]
    · rw [addRequest_pending here] at found
      split at found
      · next same =>
        cases found
        exact same.symm
      · exact matched.own ctx rs found

theorem Matched.recvAck (matched : Matched r) (id : Nat) (ctx : Bytes) : Matched (r.recvAck id ctx).1 := by
  refine ⟨by rw [recvAck_queue]; exact matched.nodup, fun other => ?_, fun other status found => ?_⟩
  · rw [recvAck_queue, recvAck_pending, Option.isSome_map, matched.keys]
  · rw [recvAck_pending, Option.map_eq_some_iff] at found
    obtain ⟨rs, old, rfl⟩ := found
    have own := matched.own other rs old
    split <;> exact own

theorem indices_eq (r : ReadOnly) :
    r.indices = r.readIndexQueue.filterMap (fun ctx => (r.pendingReadIndex ctx).map ReadIndexStatus.index) := by
  rw [indices, List.map_filterMap]

theorem Matched.indices_addRequest (matched : Matched r) (i : Nat) (m : Message) :
    (r.addRequest i m).indices.Sublist (r.indices ++ [i]) := by
  cases here : r.pendingReadIndex m.context with
  | some rs =>
    rw [addRequest_waiting here]
    exact List.sublist_append_left _ _
  | none =>
    have new := matched.fresh here
    have old : r.readIndexQueue.filterMap (fun ctx =>
        ((r.addRequest i m).pendingReadIndex ctx).map ReadIndexStatus.index) = r.indices := by
      rw [indices_eq]
      refine List.filterMap_congr fun ctx inside => ?_
      rw [addRequest_pending here, if_neg (fun same : ctx = m.context => new (same ▸ inside))]
    rw [indices_eq (r.addRequest i m), addRequest_queue here, List.filterMap_append, old]
    simp [addRequest_pending here]

theorem indices_recvAck (r : ReadOnly) (id : Nat) (ctx : Bytes) : (r.recvAck id ctx).1.indices = r.indices := by
  rw [indices_eq, indices_eq, recvAck_queue]
  refine List.filterMap_congr fun other _ => ?_
  rw [recvAck_pending, Option.map_map]
  refine Option.map_congr fun rs _ => ?_
  show ReadIndexStatus.index (if other = ctx then _ else rs) = rs.index
  split <;> rfl

/-- `advance` keeps the bijection and takes indices off the front. -/
theorem Matched.advance (matched : Matched r) (m : Message) : ∃ r' rss, r.advance m = .ok (r', rss) ∧
    Matched r' ∧ r'.indices.Sublist r.indices := by
  by_cases inside : m.context ∈ r.readIndexQueue
  · obtain ⟨before, after, split⟩ := List.append_of_mem inside
    obtain ⟨r', rss, done, -, queue, pending⟩ := (matched.advances m).found before after split
    have nodup := matched.nodup
    rw [split, List.append_cons] at nodup
    obtain ⟨-, rest, apart⟩ := List.nodup_append.mp nodup
    have kept : ∀ ctx ∈ after, r'.pendingReadIndex ctx = r.pendingReadIndex ctx := fun ctx later => by
      rw [pending, if_neg (fun early => apart ctx early ctx later rfl)]
    refine ⟨r', rss, done, ⟨by rwa [queue], fun ctx => ?_, fun ctx rs found => ?_⟩, ?_⟩
    · rw [queue, pending]
      have keys := matched.keys ctx
      rw [split, List.append_cons, List.mem_append] at keys
      split
      · next early =>
        have gone : ctx ∉ after := fun later => apart ctx early ctx later rfl
        simp [gone]
      · next away => rw [← keys]; simp [away]
    · rw [pending] at found
      split at found
      · cases found
      · exact matched.own ctx rs found
    · rw [indices_eq, indices_eq, queue, split, List.append_cons, List.filterMap_append]
      rw [List.filterMap_congr fun ctx later => by rw [kept ctx later]]
      exact List.sublist_append_right _ _
  · exact ⟨r, [], (matched.advances m).missed inside, matched, List.Sublist.refl _⟩

/-- One call: it does not panic, it keeps the bijection, and the indices along the queue are among
those before and the one it brings, in this order. -/
theorem Matched.call (matched : Matched r) (c : ReadOnlyCall) :
    ∃ r', r.call c = .ok r' ∧ Matched r' ∧ r'.indices.Sublist (r.indices ++ c.index?.toList) := by
  cases c with
  | addRequest i m => exact ⟨_, rfl, matched.addRequest i m, matched.indices_addRequest i m⟩
  | recvAck id ctx =>
    refine ⟨_, rfl, matched.recvAck id ctx, ?_⟩
    rw [indices_recvAck]
    exact List.sublist_append_left _ _
  | advance m =>
    obtain ⟨r', rss, done, next, fewer⟩ := matched.advance m
    refine ⟨r', by rw [ReadOnly.call, done]; rfl, next, ?_⟩
    exact fewer.trans (List.sublist_append_left _ _)

theorem Matched.calls (matched : Matched r) (cs : List ReadOnlyCall) : ∃ r', r.calls cs = .ok r' ∧ Matched r' ∧
    r'.indices.Sublist (r.indices ++ cs.filterMap ReadOnlyCall.index?) := by
  induction cs generalizing r with
  | nil => exact ⟨r, rfl, matched, by simp⟩
  | cons c cs ih =>
    obtain ⟨mid, first, next, fewer⟩ := matched.call c
    obtain ⟨r', rest, last, later⟩ := ih next
    refine ⟨r', by rw [ReadOnly.calls, first]; exact rest, last, later.trans ?_⟩
    have brought : (c :: cs).filterMap ReadOnlyCall.index? = c.index?.toList ++ cs.filterMap ReadOnlyCall.index? := by
      cases here : c.index? <;> simp [here]
    rw [brought, ← List.append_assoc]
    exact fewer.append_right _

theorem readOnly_queue_invariant (cs : List ReadOnlyCall) : ∃ r, newReadOnly.calls cs = .ok r ∧
    r.readIndexQueue.Nodup ∧ (∀ ctx, ctx ∈ r.readIndexQueue ↔ (r.pendingReadIndex ctx).isSome) ∧
    (∀ m, Advances r m) ∧
    ((cs.filterMap ReadOnlyCall.index?).Pairwise (· ≤ ·) → r.indices.Pairwise (· ≤ ·)) := by
  obtain ⟨r, done, matched, among⟩ := matched_new.calls cs
  exact ⟨r, done, matched.nodup, matched.keys, matched.advances, fun rising => rising.sublist among⟩

end ReadOnly

end Kvgo

import Kvgo.Transport.Multiplexed

/-! Why a response finds its call: without a wrap of the counter no number is drawn twice, so that a
number names its call for ever. -/

namespace Kvgo

open Words

namespace Transport

namespace Multiplexed

open Client

structure Sound (s : Client) (c : Nat) : Prop where
  undrawn : (s.phase c).early = true → s.requestId c = 0
  drawn : (s.phase c).holds = true → s.requestId c ≠ 0
  begun : (s.phase c).begun = true → s.loop ≠ .notStarted
  own : ∀ payload caller, s.respCh c = some (.ok payload caller) ∨ s.phase c = .answered payload caller → caller = c
  failing : s.closed = false → s.respCh c ≠ some .transportClosed
  empty : s.closed = false → (s.phase c).written = false ∨ c ∈ s.callers → s.respCh c = none
  found : s.closed = false → s.phase c = .registered ∨ s.phase c = .waiting ∧ c ∈ s.unseen →
    s.pendingRequests (s.requestId c) = some c
  kept : s.closed = false → s.phase c = .waiting → c ∈ s.callers ∨ s.respCh c ≠ none

structure Sent (s : Client) (p : Packet) : Prop where
  long : 4 ≤ p.buf.length
  number : p.requestId = s.requestId p.caller
  positive : s.requestId p.caller ≠ 0
  written : (s.phase p.caller).written = true

structure Routed (s : Client) : Prop where
  counted : s.nextId < 2 ^ 32
  bounded : ∀ c, s.requestId c ≤ s.nextId
  unique : ∀ c d, s.requestId c = s.requestId d → s.requestId c ≠ 0 → c = d
  stopped : s.loop = .stopped → s.closed = true
  filed : ∀ id c, s.pendingRequests id = some c → s.requestId c = id ∧ id ≠ 0 ∧ (s.phase c).filed = true
  sent : ∀ p ∈ s.underway, Sent s p
  once : s.callers.Nodup
  target : ∀ p ch, s.loop = .found p ch ∨ s.loop = .sending p ch → ch = p.caller
  calls : ∀ c, Sound s c

/-- The call `c` sees no difference between two states. -/
structure Alike (s t : Client) (c : Nat) : Prop where
  phase : t.phase c = s.phase c
  number : t.requestId c = s.requestId c
  channel : t.respCh c = s.respCh c
  entry : s.pendingRequests (s.requestId c) = some c → t.pendingRequests (s.requestId c) = some c
  closed : t.closed = s.closed
  begun : t.loop = .notStarted → s.loop = .notStarted
  under : c ∈ t.callers ↔ c ∈ s.callers
  unseen : c ∈ t.unseen → c ∈ s.unseen

theorem Sound.alike {s t : Client} {c : Nat} (sound : Sound s c) (alike : Alike s t c) : Sound t c := by
  obtain ⟨phase, number, channel, entry, closed, begun, under, unseen⟩ := alike
  constructor
  · rw [phase, number]
    exact sound.undrawn
  · rw [phase, number]
    exact sound.drawn
  · rw [phase]
    exact fun hasBegun none => sound.begun hasBegun (begun none)
  · rw [phase, channel]
    exact sound.own
  · rw [closed, channel]
    exact sound.failing
  · rw [closed, phase, under, channel]
    exact sound.empty
  · rw [closed, phase, number]
    exact fun isOpen wanted => entry (sound.found isOpen (wanted.imp_right fun waits => ⟨waits.1, unseen waits.2⟩))
  · rw [closed, phase, under, channel]
    exact sound.kept

theorem Sent.mono {s t : Client} {p : Packet} (sent : Sent s p) (number : t.requestId p.caller = s.requestId p.caller)
    (written : (s.phase p.caller).written = true → (t.phase p.caller).written = true) : Sent t p :=
  ⟨sent.long, number ▸ sent.number, number ▸ sent.positive, written sent.written⟩

namespace Routed

variable {s : Client} {c : Nat} {ph : Phase}

theorem start (maxInflight : Int) : Routed (newMultiplexedTransportWithLimit maxInflight) where
  counted := by show 0 < 2 ^ 32; decide
  bounded _ := Nat.le_refl 0
  unique _ _ _ positive := absurd rfl positive
  stopped ended := nomatch ended
  filed _ _ there := nomatch there
  sent _ there := nomatch there
  once := List.nodup_nil
  target _ _ there := there.elim nofun nofun
  calls _ :=
    ⟨fun _ => rfl, nofun, nofun, fun _ _ there => there.elim nofun nofun, fun _ => nofun, fun _ _ => rfl,
      fun _ there => there.elim nofun (fun waits => nomatch waits.1), fun _ waits => nomatch waits⟩

/-! ### A call moves on -/

theorem unsent (routed : Routed s) (early : (s.phase c).written = false) : c ∉ s.callers := by
  intro inside
  obtain ⟨p, there, rfl⟩ := List.mem_map.mp inside
  have written := (routed.sent p there).written
  rw [early] at written
  cases written

/-- Only the phase of a call changes; what it files and what it sends are steps of their own. -/
theorem goto (routed : Routed s) (early : ph.early = true → (s.phase c).early = true)
    (holds : ph.holds = true → (s.phase c).holds = true) (begun : ph.begun = true → s.loop ≠ .notStarted)
    (filed : (s.phase c).filed = true → ph.filed = true)
    (written : (s.phase c).written = true → ph.written = true)
    (own : ∀ payload caller, ph = .answered payload caller → caller = c)
    (registered : ph ≠ .registered) (waiting : ph ≠ .waiting) : Routed (s.goto c ph) := by
  have old := routed.calls c
  refine ⟨routed.counted, routed.bounded, routed.unique, routed.stopped, ?_, ?_, routed.once, routed.target, ?_⟩
  · intro id d there
    obtain ⟨number, positive, before⟩ := routed.filed id d there
    refine ⟨number, positive, ?_⟩
    by_cases same : d = c
    · subst same
      rw [goto_self]
      exact filed before
    · rw [goto_other _ _ same]
      exact before
  · intro p inside
    refine (routed.sent p inside).mono rfl fun before => ?_
    by_cases same : p.caller = c
    · rw [same] at before ⊢
      rw [goto_self]
      exact written before
    · rw [goto_other _ _ same]
      exact before
  · intro d
    by_cases same : d = c
    · subst same
      refine ⟨?_, ?_, ?_, ?_, old.failing, ?_, ?_, ?_⟩ <;> rw [goto_self]
      · exact fun isEarly => old.undrawn (early isEarly)
      · exact fun holding => old.drawn (holds holding)
      · exact begun
      · exact fun payload caller why => why.elim (fun given => old.own payload caller (.inl given)) (own payload caller)
      · refine fun isOpen why => old.empty isOpen (why.imp_left fun unwritten => ?_)
        refine Bool.eq_false_iff.mpr fun before => ?_
        rw [written before] at unwritten
        cases unwritten
      · exact fun _ wanted => wanted.elim (absurd · registered) fun waits => absurd waits.1 waiting
      · exact fun _ waits => absurd waits waiting
    · exact (routed.calls d).alike ⟨goto_other _ _ same, rfl, rfl, id, rfl, id, Iff.rfl, id⟩

theorem inflight (routed : Routed s) (n : Nat) : Routed { s with inflight := n } :=
  ⟨routed.counted, routed.bounded, routed.unique, routed.stopped, routed.filed,
    fun p inside => (routed.sent p inside).mono rfl id, routed.once, routed.target,
    fun d => (routed.calls d).alike ⟨rfl, rfl, rfl, id, rfl, id, Iff.rfl, id⟩⟩

theorem payload (routed : Routed s) (payloads : Nat → Bytes) : Routed { s with payload := payloads } :=
  ⟨routed.counted, routed.bounded, routed.unique, routed.stopped, routed.filed,
    fun p inside => (routed.sent p inside).mono rfl id, routed.once, routed.target,
    fun d => (routed.calls d).alike ⟨rfl, rfl, rfl, id, rfl, id, Iff.rfl, id⟩⟩

theorem clear (routed : Routed s) (gone : s.phase c ≠ .waiting) : Routed (s.clear c) := by
  refine ⟨routed.counted, routed.bounded, routed.unique, routed.stopped, routed.filed,
    fun p inside => (routed.sent p inside).mono rfl id, routed.once, routed.target, fun d => ?_⟩
  by_cases same : d = c
  · subst same
    have old := routed.calls d
    refine ⟨old.undrawn, old.drawn, old.begun, ?_, ?_, fun _ _ => clear_self _, old.found, ?_⟩
    · rw [clear_self]
      exact fun payload caller why => old.own payload caller (.inr (why.resolve_left nofun))
    · rw [clear_self]
      exact fun _ => nofun
    · exact fun _ waits => absurd waits gone
  · exact (routed.calls d).alike ⟨rfl, rfl, clear_other _ same, id, rfl, id, Iff.rfl, id⟩

/-- The entry of a call that needs it no more. -/
theorem forget (routed : Routed s) (positive : s.requestId c ≠ 0)
    (unneeded : s.closed = false → ¬ (s.phase c = .registered ∨ s.phase c = .waiting ∧ c ∈ s.unseen)) :
    Routed (s.forget (s.requestId c)) := by
  refine ⟨routed.counted, routed.bounded, routed.unique, routed.stopped, ?_,
    fun p inside => (routed.sent p inside).mono rfl id, routed.once, routed.target, fun d => ?_⟩
  · intro number d there
    by_cases same : number = s.requestId c
    · rw [same, forget_self] at there
      cases there
    · rw [forget_other s same] at there
      exact routed.filed number d there
  · by_cases same : d = c
    · subst same
      have old := routed.calls d
      exact ⟨old.undrawn, old.drawn, old.begun, old.own, old.failing, old.empty,
        fun isOpen wanted => absurd wanted (unneeded isOpen), old.kept⟩
    · have differs : s.requestId d ≠ s.requestId c :=
        fun equal => same (routed.unique c d equal.symm positive).symm
      exact (routed.calls d).alike
        ⟨rfl, rfl, rfl, fun entry => (forget_other s differs).trans entry, rfl, id, Iff.rfl, id⟩

theorem close (routed : Routed s) : Routed { s with closed := true } := by
  refine ⟨routed.counted, routed.bounded, routed.unique, fun _ => rfl, routed.filed,
    fun p inside => (routed.sent p inside).mono rfl id, routed.once, routed.target, fun d => ?_⟩
  have old := routed.calls d
  exact ⟨old.undrawn, old.drawn, old.begun, old.own, nofun, nofun, nofun, nofun⟩

/-! A call draws its number, files its channel and sends its request. -/

theorem draw (routed : Routed s) (turn : s.phase c = .allocating) (noWrap : s.nextId + 1 < 2 ^ 32) :
    Routed (s.draw c) := by
  have next : (s.draw c).nextId = s.nextId + 1 := Nat.mod_eq_of_lt noWrap
  have own : (s.draw c).requestId c = s.nextId + 1 :=
    (Function.update_self _ _ _).trans (Nat.mod_eq_of_lt noWrap)
  have number : ∀ d, d ≠ c → (s.draw c).requestId d = s.requestId d :=
    fun d differs => Function.update_of_ne differs _ _
  have self : (s.draw c).phase c = .drawn := goto_self _ _
  have other : ∀ d, d ≠ c → (s.draw c).phase d = s.phase d := fun _ differs => goto_other _ _ differs
  have unsent : c ∉ s.callers := routed.unsent (by rw [turn]; rfl)
  refine ⟨by omega, ?_, ?_, routed.stopped, ?_, ?_, routed.once, routed.target, fun d => ?_⟩
  · intro d
    by_cases same : d = c
    · rw [same, own, next]
    · rw [number d same, next]
      exact Nat.le_succ_of_le (routed.bounded d)
  · -- the new number is above every other one
    intro d e equal positive
    have boundD := routed.bounded d
    have boundE := routed.bounded e
    by_cases first : d = c
    · by_cases second : e = c
      · rw [first, second]
      · rw [first, own, number e second] at equal
        omega
    · by_cases second : e = c
      · rw [second, own, number d first] at equal
        omega
      · rw [number d first, number e second] at equal
        rw [number d first] at positive
        exact routed.unique d e equal positive
  · intro id d there
    obtain ⟨old, positive, filed⟩ := routed.filed id d there
    have differs : d ≠ c := by
      rintro rfl
      rw [turn] at filed
      cases filed
    rw [number d differs, other d differs]
    exact ⟨old, positive, filed⟩
  · intro p inside
    have differs : p.caller ≠ c := fun same => unsent (same ▸ List.mem_map_of_mem inside)
    exact (routed.sent p inside).mono (number _ differs) (by rw [other _ differs]; exact id)
  · by_cases same : d = c
    · subst same
      have old := routed.calls d
      have empty : s.closed = false → s.respCh d = none := fun isOpen => old.empty isOpen (.inl (by rw [turn]; rfl))
      refine ⟨?_, ?_, ?_, ?_, old.failing, fun isOpen _ => empty isOpen, ?_, ?_⟩ <;> rw [self]
      · exact nofun
      · rw [own]
        exact fun _ => Nat.succ_ne_zero _
      · exact fun _ => old.begun (by rw [turn]; rfl)
      · exact fun payload caller why => old.own payload caller (.inl (why.resolve_right nofun))
      · exact fun _ wanted => wanted.elim nofun fun waits => nomatch waits.1
      · exact fun _ waits => nomatch waits
    · exact (routed.calls d).alike ⟨other d same, number d same, rfl, id, rfl, id, Iff.rfl, id⟩

theorem file (routed : Routed s) (turn : s.phase c = .allocated) : Routed (s.file c) := by
  have old := routed.calls c
  have positive : s.requestId c ≠ 0 := old.drawn (by rw [turn]; rfl)
  have self : (s.file c).phase c = .registered := goto_self _ _
  have other : ∀ d, d ≠ c → (s.file c).phase d = s.phase d := fun _ differs => goto_other _ _ differs
  have unsent : c ∉ s.callers := routed.unsent (by rw [turn]; rfl)
  have channel : (s.file c).respCh c = none := clear_self _
  have here : (s.file c).pendingRequests (s.requestId c) = some c := Function.update_self _ _ _
  have elsewhere : ∀ id, id ≠ s.requestId c → (s.file c).pendingRequests id = s.pendingRequests id :=
    fun id differs => Function.update_of_ne differs _ _
  refine ⟨routed.counted, routed.bounded, routed.unique, routed.stopped, ?_, ?_, routed.once, routed.target,
    fun d => ?_⟩
  · intro id d there
    by_cases same : id = s.requestId c
    · rw [same, here] at there
      obtain rfl := Option.some.inj there
      exact ⟨same.symm, same ▸ positive, by rw [self]; rfl⟩
    · rw [elsewhere id same] at there
      obtain ⟨number, nonzero, filed⟩ := routed.filed id d there
      have differs : d ≠ c := by
        rintro rfl
        exact same number.symm
      exact ⟨number, nonzero, by rw [other d differs]; exact filed⟩
  · intro p inside
    have differs : p.caller ≠ c := fun same => unsent (same ▸ List.mem_map_of_mem inside)
    exact (routed.sent p inside).mono rfl (by rw [other _ differs]; exact id)
  · by_cases same : d = c
    · subst same
      refine ⟨?_, fun _ => positive, ?_, ?_, ?_, fun _ _ => channel, fun _ _ => here, ?_⟩
      · rw [self]
        exact nofun
      · exact fun _ => old.begun (by rw [turn]; rfl)
      · rw [self, channel]
        exact fun _ _ why => why.elim nofun nofun
      · rw [channel]
        exact fun _ => nofun
      · rw [self]
        exact fun _ waits => nomatch waits
    · have differs : s.requestId d ≠ s.requestId c :=
        fun equal => same (routed.unique c d equal.symm positive).symm
      exact (routed.calls d).alike ⟨other d same, rfl, clear_other _ same,
        fun entry => (elsewhere _ differs).trans entry, rfl, id, Iff.rfl, id⟩

theorem request_id (s : Client) (c : Nat) (fits : s.requestId c < 2 ^ 32) :
    (s.request c).requestId = s.requestId c := by
  unfold Packet.requestId Client.request
  rw [List.take_left' (by simp)]
  exact ofLE_le 4 _ fits

theorem put (routed : Routed s) (turn : s.phase c = .registered) : Routed (s.put c) := by
  have old := routed.calls c
  have positive : s.requestId c ≠ 0 := old.drawn (by rw [turn]; rfl)
  have self : (s.put c).phase c = .waiting := goto_self _ _
  have other : ∀ d, d ≠ c → (s.put c).phase d = s.phase d := fun _ differs => goto_other _ _ differs
  have unsent : c ∉ s.callers := routed.unsent (by rw [turn]; rfl)
  have swapped : (s.put c).underway.Perm (s.request c :: s.underway) := by
    show (s.requests ++ [s.request c] ++ (s.loop.packets ++ s.wire)).Perm _
    rw [List.append_assoc]
    exact List.perm_middle
  have callers : (s.put c).callers.Perm (c :: s.callers) := swapped.map Packet.caller
  refine ⟨routed.counted, routed.bounded, routed.unique, routed.stopped, ?_, ?_, ?_, routed.target, fun d => ?_⟩
  · intro id d there
    obtain ⟨number, nonzero, filed⟩ := routed.filed id d there
    refine ⟨number, nonzero, ?_⟩
    by_cases same : d = c
    · rw [same, self]
      rfl
    · rw [other d same]
      exact filed
  · intro p inside
    rcases List.mem_cons.mp (swapped.subset inside) with rfl | before
    · have fits : s.requestId c < 2 ^ 32 := Nat.lt_of_le_of_lt (routed.bounded c) routed.counted
      refine ⟨by simp [Client.request], request_id s c fits, positive, ?_⟩
      show ((s.put c).phase c).written = true
      rw [self]
      rfl
    · have differs : p.caller ≠ c := fun same => unsent (same ▸ List.mem_map_of_mem before)
      exact (routed.sent p before).mono rfl (by rw [other _ differs]; exact id)
  · exact callers.nodup_iff.mpr (List.nodup_cons.mpr ⟨unsent, routed.once⟩)
  · by_cases same : d = c
    · subst same
      have empty : s.closed = false → s.respCh d = none := fun isOpen => old.empty isOpen (.inl (by rw [turn]; rfl))
      refine ⟨?_, fun _ => positive, ?_, ?_, old.failing, fun isOpen _ => empty isOpen,
        fun isOpen _ => old.found isOpen (.inl turn), fun _ _ => .inl (callers.symm.subset (List.mem_cons_self))⟩
      · rw [self]
        exact nofun
      · exact fun _ => old.begun (by rw [turn]; rfl)
      · rw [self]
        exact fun payload caller why => old.own payload caller (.inl (why.resolve_right nofun))
    · refine (routed.calls d).alike ⟨other d same, rfl, rfl, id, rfl, id, ?_, fun there => ?_⟩
      · rw [callers.mem_iff, List.mem_cons, or_iff_right same]
      · change d ∈ (s.requests ++ [s.request c] ++ (s.loop.unlooked ++ s.wire)).map Packet.caller at there
        rw [List.append_assoc] at there
        have mine : d ≠ (s.request c).caller := same
        simp only [List.map_append, List.map_cons, List.mem_append, List.mem_cons, mine, false_or,
          List.map_nil] at there
        simpa [Client.unseen] using there

/-! ### The frames move on -/

theorem reroute (routed : Routed s) {loop : ReadLoop} {requests wire : List Packet}
    (begun : loop = .notStarted → s.loop = .notStarted) (stopped : loop = .stopped → s.loop = .stopped)
    (sent : ∀ p ∈ requests ++ (loop.packets ++ wire), Sent s p)
    (callers : ((requests ++ (loop.packets ++ wire)).map Packet.caller).Perm s.callers)
    (unseen : (requests ++ (loop.unlooked ++ wire)).map Packet.caller ⊆ s.unseen)
    (target : ∀ p ch, loop = .found p ch ∨ loop = .sending p ch → ch = p.caller) :
    Routed { s with loop := loop, requests := requests, wire := wire } :=
  ⟨routed.counted, routed.bounded, routed.unique, fun ended => routed.stopped (stopped ended), routed.filed,
    fun p inside => (sent p inside).mono rfl id, callers.nodup_iff.mpr routed.once, target,
    fun d => (routed.calls d).alike ⟨rfl, rfl, rfl, id, rfl, begun, callers.mem_iff, fun there => unseen there⟩⟩

theorem reloop (routed : Routed s) {loop : ReadLoop} (begun : loop ≠ .notStarted) (stopped : loop ≠ .stopped)
    (same : loop.packets = s.loop.packets) (fewer : loop.unlooked ⊆ s.loop.unlooked)
    (target : ∀ p ch, loop = .found p ch ∨ loop = .sending p ch → ch = p.caller) : Routed { s with loop := loop } := by
  refine routed.reroute (absurd · begun) (absurd · stopped) ?_ ?_ ?_ target
  · rw [same]
    exact routed.sent
  · rw [same]
    exact List.Perm.refl _
  · refine List.map_subset _ (List.append_subset.mpr ⟨List.subset_append_left _ _, ?_⟩)
    refine List.append_subset.mpr ⟨fun p there => ?_, fun p there => ?_⟩
    · exact List.mem_append_right _ (List.mem_append_left _ (fewer there))
    · exact List.mem_append_right _ (List.mem_append_right _ there)

theorem startReadLoop (routed : Routed s) : Routed s.startReadLoop ∧ s.startReadLoop.loop ≠ .notStarted := by
  unfold Client.startReadLoop
  by_cases fresh : s.loop = .notStarted
  · rw [if_pos fresh]
    refine ⟨routed.reloop nofun nofun ?_ ?_ (fun _ _ there => there.elim nofun nofun), nofun⟩
    · rw [fresh]
      rfl
    · exact List.nil_subset _
  · rw [if_neg fresh]
    exact ⟨routed, fresh⟩

theorem answer (routed : Routed s) {i : Nat} {q : Packet} (asked : s.requests[i]? = some q) (data : Bytes) :
    Routed (s.answer i q data) := by
  have old := routed.sent q (List.mem_append_left _ (List.mem_of_getElem? asked))
  have rest : (q :: s.requests.eraseIdx i).Perm s.requests := by
    obtain ⟨bound, rfl⟩ := List.getElem?_eq_some_iff.mp asked
    exact List.getElem_cons_eraseIdx_perm bound
  -- the callers are the same, in another order
  have reorder : ∀ middle : List Packet,
      ((s.requests.eraseIdx i ++ (middle ++ (s.wire ++ [Packet.mk (q.buf.take 4 ++ data) q.caller]))).map
        Packet.caller).Perm ((s.requests ++ (middle ++ s.wire)).map Packet.caller) := by
    intro middle
    have front := rest.map Packet.caller
    simp only [List.map_append, List.map_cons, List.map_nil] at front ⊢
    refine List.Perm.trans ?_ (front.append_right _)
    rw [← List.append_assoc _ _ [q.caller], ← List.append_assoc _ _ [q.caller]]
    exact List.perm_append_singleton _ _
  refine routed.reroute id id ?_ (reorder _) (reorder _).subset routed.target
  intro p there
  rcases List.mem_append.mp there with waiting | back
  · exact routed.sent p (List.mem_append_left _ (List.mem_of_mem_eraseIdx waiting))
  · rcases List.mem_append.mp back with held | onWire
    · exact routed.sent p (List.mem_append_right _ (List.mem_append_left _ held))
    · rcases List.mem_append.mp onWire with before | new
      · exact routed.sent p (List.mem_append_right _ (List.mem_append_right _ before))
      · cases List.mem_singleton.mp new
        have header : (q.buf.take 4).length = 4 := List.length_take_of_le old.long
        refine ⟨by simp [header], ?_, old.positive, old.written⟩
        rw [← old.number]
        unfold Packet.requestId
        rw [List.take_left' header]

theorem read (routed : Routed s) {p : Packet} {rest : List Packet} (idle : s.loop = .reading)
    (first : s.wire = p :: rest) : Routed { s with wire := rest, loop := .got p } := by
  have under : s.requests ++ ((ReadLoop.got p).packets ++ rest) = s.underway := by
    rw [underway, idle, first]
    rfl
  refine routed.reroute nofun nofun ?_ ?_ ?_ (fun _ _ there => there.elim nofun nofun)
  · rw [under]
    exact routed.sent
  · rw [under]
    exact List.Perm.refl _
  · rw [Client.unseen, idle, first]
    exact List.Subset.refl _

theorem held_underway {p : Packet} (held : s.loop.packets = [p]) : p ∈ s.underway :=
  List.mem_append_right _ (List.mem_append_left _ (held ▸ List.mem_singleton_self p))

theorem filed_own (routed : Routed s) {p : Packet} {ch : Nat} (inside : p ∈ s.underway)
    (there : s.pendingRequests p.requestId = some ch) : ch = p.caller := by
  have sent := routed.sent p inside
  obtain ⟨same, _, _⟩ := routed.filed _ _ there
  rw [sent.number] at same
  exact (routed.unique _ _ same.symm sent.positive).symm

theorem lookup_found (routed : Routed s) {p : Packet} {ch : Nat} (held : s.loop = .got p)
    (there : s.pendingRequests p.requestId = some ch) : Routed { s with loop := .found p ch } := by
  have own : ch = p.caller := routed.filed_own (held_underway (by rw [held]; rfl)) there
  refine routed.reloop nofun nofun (by rw [held]; rfl) (List.nil_subset _) ?_
  rintro _ _ (now | later)
  · cases now
    exact own
  · cases later

theorem held_once (routed : Routed s) {p : Packet} (held : s.loop.packets = [p]) :
    p.caller ∉ (s.requests ++ s.wire).map Packet.caller ∧ ((s.requests ++ s.wire).map Packet.caller).Nodup := by
  have once := routed.once
  rw [callers, underway, held] at once
  simp only [List.map_append, List.map_cons, List.singleton_append] at once
  rw [List.map_append]
  exact List.nodup_cons.mp (List.nodup_middle.mp once)

/-- The loop lets go of its frame. The other calls notice nothing, whatever is put in the channel of its own. -/
theorem release (routed : Routed s) {p : Packet} (held : s.loop.packets = [p]) {channels : Nat → Option Response}
    (others : ∀ d, d ≠ p.caller → channels d = s.respCh d)
    (sound : Sound { s with respCh := channels, loop := .reading } p.caller) :
    Routed { s with respCh := channels, loop := .reading } := by
  refine ⟨routed.counted, routed.bounded, routed.unique, nofun, routed.filed, ?_, (routed.held_once held).2,
    fun _ _ there => there.elim nofun nofun, fun d => ?_⟩
  · intro q there
    refine (routed.sent q ?_).mono rfl id
    exact (List.mem_append.mp there).elim (List.mem_append_left _)
      fun onWire => List.mem_append_right _ (List.mem_append_right _ onWire)
  · by_cases same : d = p.caller
    · rw [same]
      exact sound
    · refine (routed.calls d).alike ⟨rfl, rfl, others d same, id, rfl, nofun, ?_, fun there => ?_⟩
      · rw [callers, callers, underway, underway, held]
        simp [ReadLoop.packets, same]
      · rw [Client.unseen] at there ⊢
        simp only [ReadLoop.unlooked, List.map_append, List.mem_append, List.map_nil] at there ⊢
        tauto

theorem lookup_missed (routed : Routed s) {p : Packet} (held : s.loop = .got p)
    (gone : s.pendingRequests p.requestId = none) : Routed { s with loop := .reading } := by
  have packets : s.loop.packets = [p] := by rw [held]; rfl
  have inside := held_underway packets
  have old := routed.calls p.caller
  have missed : s.closed = false → s.phase p.caller ≠ .waiting := by
    intro isOpen waits
    have entry := old.found isOpen (.inr ⟨waits, List.mem_map_of_mem (by rw [held]; simp [ReadLoop.unlooked])⟩)
    rw [← (routed.sent p inside).number, gone] at entry
    cases entry
  refine routed.release packets (fun _ _ => rfl) ⟨old.undrawn, old.drawn, fun _ => nofun, old.own, old.failing,
    fun isOpen _ => old.empty isOpen (.inr (List.mem_map_of_mem inside)), fun isOpen wanted => ?_,
    fun isOpen waits => absurd waits (missed isOpen)⟩
  exact old.found isOpen (wanted.imp_right fun waits => absurd waits.1 (missed isOpen))

theorem delete (routed : Routed s) {p : Packet} {ch : Nat} (held : s.loop = .found p ch) :
    Routed { s.forget p.requestId with loop := .sending p ch } := by
  have packets : s.loop.packets = [p] := by rw [held]; rfl
  have sent := routed.sent p (held_underway packets)
  rw [sent.number]
  have forgot : Routed (s.forget (s.requestId p.caller)) := by
    refine routed.forget sent.positive fun _ wanted => ?_
    rcases wanted with registered | waits
    · have written := sent.written
      rw [registered] at written
      cases written
    · have twice := waits.2
      rw [Client.unseen, held] at twice
      exact (routed.held_once packets).1 twice
  refine forgot.reloop nofun nofun packets.symm (List.nil_subset _) ?_
  rintro _ _ (now | later)
  · cases now
  · cases later
    exact routed.target p ch (.inl held)

theorem send (routed : Routed s) {p : Packet} {ch : Nat} (held : s.loop = .sending p ch) :
    Routed { s with
      respCh := Function.update s.respCh ch (some (.ok (p.buf.drop 4) p.caller)), loop := .reading } := by
  have packets : s.loop.packets = [p] := by rw [held]; rfl
  have written := (routed.sent p (held_underway packets)).written
  have old := routed.calls p.caller
  obtain rfl := routed.target p ch (.inr held)
  have given : Function.update s.respCh p.caller (some (.ok (p.buf.drop 4) p.caller)) p.caller =
      some (.ok (p.buf.drop 4) p.caller) := Function.update_self _ _ _
  refine routed.release packets (fun d differs => Function.update_of_ne differs _ _)
    ⟨old.undrawn, old.drawn, fun _ => nofun, ?_, fun _ failed => (nomatch given.symm.trans failed), ?_, ?_,
      fun _ _ => .inr fun none => (nomatch given.symm.trans none)⟩
  · rintro payload caller (now | returned)
    · cases given.symm.trans now
      rfl
    · exact old.own payload caller (.inr returned)
  · rintro _ (unwritten | there)
    · exact absurd written (Bool.eq_false_iff.mp unwritten)
    · exact absurd there (routed.held_once packets).1
  · intro isOpen wanted
    refine old.found isOpen (wanted.imp_right fun waits => ⟨waits.1, ?_⟩)
    rw [Client.unseen, held]
    exact waits.2

/-- One send of `cleanup`. -/
theorem fail (routed : Routed s) (closed : s.closed = true) {number ch : Nat}
    (there : s.pendingRequests number = some ch) :
    Routed { s.forget number with respCh := Function.update s.respCh ch (some .transportClosed) } := by
  obtain ⟨rfl, positive, _⟩ := routed.filed number ch there
  have shut : ∀ {P : Prop}, s.closed = false → P := fun isOpen => absurd isOpen (by rw [closed]; nofun)
  have forgot : Routed (s.forget (s.requestId ch)) := routed.forget positive shut
  refine ⟨routed.counted, routed.bounded, routed.unique, routed.stopped, forgot.filed,
    fun p inside => (routed.sent p inside).mono rfl id, routed.once, routed.target, fun d => ?_⟩
  have old := routed.calls d
  refine ⟨old.undrawn, old.drawn, old.begun, ?_, shut, shut, shut, shut⟩
  rintro payload caller (given | returned)
  · by_cases same : d = ch
    · subst same
      exact nomatch (Function.update_self _ _ _).symm.trans given
    · exact old.own payload caller (.inl ((Function.update_of_ne same _ _).symm.trans given))
  · exact old.own payload caller (.inr returned)

/-! ### One step -/

section Step

variable {e : RequestError}

theorem call_step (routed : Routed s) (payload : Bytes) : Routed (s.step (.call c payload)) := by
  rw [Client.step]
  split
  · next idle =>
    split
    · exact routed.goto nofun nofun nofun (by rw [idle]; nofun) (by rw [idle]; nofun) nofun nofun nofun
    · obtain ⟨started, running⟩ := routed.startReadLoop
      have same : s.startReadLoop.phase c = .idle := idle
      have moved : Routed (s.startReadLoop.goto c .entering) :=
        started.goto (by rw [same]; exact fun _ => rfl) nofun (fun _ => running) (by rw [same]; nofun)
          (by rw [same]; nofun) nofun nofun nofun
      exact moved.payload _
  · exact routed

theorem acquire_step (routed : Routed s) : Routed (s.step (.acquire c)) := by
  rw [Client.step]
  split
  · next turn =>
    have moved : Routed (s.goto c .allocating) :=
      routed.goto (by rw [turn.1]; exact fun _ => rfl) nofun (fun _ => (routed.calls c).begun (by rw [turn.1]; rfl))
        (by rw [turn.1]; nofun) (by rw [turn.1]; nofun) nofun nofun nofun
    exact moved.inflight _
  · exact routed

theorem giveUp (routed : Routed s) : Routed (s.goto c (.failed e)) :=
  routed.goto nofun nofun nofun (fun _ => rfl) (fun _ => rfl) nofun nofun nofun

theorem leave (routed : Routed s) (turn : (s.phase c).holds = true) : Routed (s.goto c (.leaving e)) :=
  routed.goto nofun (fun _ => turn)
    (fun _ => (routed.calls c).begun (Phase.begun_of_holds turn)) (fun _ => rfl) (fun _ => rfl) nofun nofun nofun

theorem cancel_step (routed : Routed s) : Routed (s.step (.cancel c)) := by
  rw [Client.step]
  split
  · exact routed.giveUp
  · split
    · next waits => exact routed.leave (by rw [waits]; rfl)
    · exact routed

theorem closedReturn_step (routed : Routed s) : Routed (s.step (.closedReturn c)) := by
  rw [Client.step]
  split
  · split
    · exact routed.giveUp
    · split
      · exact routed.giveUp.inflight _
      · exact routed
  · exact routed

theorem add_step (routed : Routed s) (noWrap : s.nextId + 1 < 2 ^ 32) : Routed (s.step (.add c)) := by
  rw [Client.step]
  split
  · next turn => exact routed.draw turn noWrap
  · exact routed

/-- The lookup of `allocateID` finds nothing. -/
theorem check_step (routed : Routed s) : Routed (s.step (.check c)) := by
  rw [Client.step]
  split
  · next turn =>
    split
    · next there =>
      obtain ⟨d, entry⟩ := Option.isSome_iff_exists.mp there
      obtain ⟨same, positive, filed⟩ := routed.filed _ _ entry
      obtain rfl := routed.unique _ _ same (by rw [same]; exact positive)
      rw [turn] at filed
      cases filed
    · exact routed.goto nofun (by rw [turn]; exact fun _ => rfl) (fun _ => (routed.calls c).begun (by rw [turn]; rfl))
        (by rw [turn]; nofun) (by rw [turn]; nofun) nofun nofun nofun
  · exact routed

theorem register_step (routed : Routed s) : Routed (s.step (.register c)) := by
  rw [Client.step]
  split
  · next turn => exact routed.file turn
  · exact routed

theorem write_step (routed : Routed s) : Routed (s.step (.write c)) := by
  rw [Client.step]
  split
  · next turn =>
    split
    · exact routed.leave (by rw [turn]; rfl)
    · exact routed.put turn
  · exact routed

theorem writeFail_step (routed : Routed s) : Routed (s.step (.writeFail c)) := by
  rw [Client.step]
  split
  · next turn => exact routed.leave (by rw [turn]; rfl)
  · exact routed

theorem remove_step (routed : Routed s) : Routed (s.step (.remove c)) := by
  rw [Client.step]
  split
  · next e turn =>
    have moved : Routed (s.finish c (.failed e)) := routed.giveUp.inflight _
    have here : (s.finish c (.failed e)).phase c = .failed e := goto_self _ _
    refine moved.forget ((routed.calls c).drawn (by rw [turn]; rfl)) fun _ wanted => ?_
    rw [here] at wanted
    exact wanted.elim nofun fun waits => nomatch waits.1
  · exact routed

theorem receive_step (routed : Routed s) : Routed (s.step (.receive c)) := by
  rw [Client.step]
  split
  · next turn =>
    split
    · next payload caller given =>
      have own := (routed.calls c).own payload caller (.inl given)
      have moved : Routed (s.goto c (.answered payload caller)) :=
        routed.goto nofun nofun (fun _ => (routed.calls c).begun (by rw [turn]; rfl)) (fun _ => rfl) (fun _ => rfl)
          (fun _ _ same => by cases same; exact own) nofun nofun
      exact (moved.inflight _).clear (by rw [show (s.goto c _).phase c = _ from s.goto_self _]; nofun)
    · exact (routed.giveUp.inflight _).clear (by rw [show (s.goto c _).phase c = _ from s.goto_self _]; nofun)
    · exact routed
  · exact routed

theorem respond_step (routed : Routed s) (i : Nat) (data : Bytes) : Routed (s.step (.respond i data)) := by
  rw [Client.step]
  split
  · next q asked =>
    split
    · exact routed.answer asked data
    · exact routed
  · exact routed

theorem readable (routed : Routed s) {p : Packet} (inside : p ∈ s.underway) : ¬ (p.buf.length < 4 ∨ p.requestId = 0) := by
  obtain ⟨long, number, positive, _⟩ := routed.sent p inside
  rw [number]
  omega

theorem read_step (routed : Routed s) : Routed (s.step .read) := by
  rw [Client.step]
  split
  · next p rest idle first =>
    have inside : p ∈ s.underway := by
      rw [underway, first]
      simp
    rw [if_neg (routed.readable inside)]
    exact routed.read idle first
  · exact routed

theorem lookup_step (routed : Routed s) : Routed (s.step .lookup) := by
  rw [Client.step]
  split
  · next p held =>
    split
    · next ch there => exact routed.lookup_found held there
    · next gone => exact routed.lookup_missed held gone
  · exact routed

theorem delete_step (routed : Routed s) : Routed (s.step .delete) := by
  rw [Client.step]
  split
  · next p ch held => exact routed.delete held
  · exact routed

theorem send_step (routed : Routed s) : Routed (s.step .send) := by
  rw [Client.step]
  split
  · next p ch held =>
    split
    · exact routed.send held
    · exact routed
  · exact routed

theorem stop_step (routed : Routed s) : Routed (s.step .stop) := by
  rw [Client.step]
  split
  · next idle =>
    have shut := routed.close
    have sent := shut.sent
    have once := shut.once
    rw [underway, idle] at sent
    rw [callers, underway, idle] at once
    refine ⟨shut.counted, shut.bounded, shut.unique, fun _ => rfl, shut.filed,
      fun p inside => (sent p inside).mono rfl id, once, fun _ _ there => there.elim nofun nofun, fun d => ?_⟩
    have old := shut.calls d
    exact ⟨old.undrawn, old.drawn, fun _ => nofun, old.own, nofun, nofun, nofun, nofun⟩
  · exact routed

theorem fail_step (routed : Routed s) (id : Nat) : Routed (s.step (.fail id)) := by
  rw [Client.step]
  split
  · next ch there =>
    split
    · next closed => exact routed.fail closed.1 there
    · exact routed
  · exact routed

theorem step (routed : Routed s) (event : Event) (noWrap : NoWrap s event) : Routed (s.step event) := by
  cases event with
  | call c payload => exact routed.call_step payload
  | acquire c => exact routed.acquire_step
  | cancel c => exact routed.cancel_step
  | closedReturn c => exact routed.closedReturn_step
  | add c => exact routed.add_step noWrap
  | check c => exact routed.check_step
  | register c => exact routed.register_step
  | write c => exact routed.write_step
  | writeFail c => exact routed.writeFail_step
  | remove c => exact routed.remove_step
  | receive c => exact routed.receive_step
  | respond i data => exact routed.respond_step i data
  | read => exact routed.read_step
  | lookup => exact routed.lookup_step
  | delete => exact routed.delete_step
  | send => exact routed.send_step
  | stop => exact routed.stop_step
  | close => exact routed.close
  | fail id => exact routed.fail_step id

end Step

end Routed

end Multiplexed

end Transport

end Kvgo

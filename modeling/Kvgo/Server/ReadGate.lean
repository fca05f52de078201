import Kvgo.Server.Replicas
import Kvgo.Server.Waiters

/-! How a read waits for its index (`proposeRead` and `handleGet` in `handler_kv.go`, `run` in `server.go`,
`pkg/wait/wait_time.go`). A read is told an index by raft and then waits until the server loop has applied
the log up to it; the reads, the loop and the deadlines take their steps in any order. -/

namespace Kvgo

open Words

namespace Server

/-! ### Logical deadlines -/

/-- `timeList`. Channels are numbered in the order in which they are made. -/
structure TimeList where
  lastTriggerDeadline : Nat := 0
  m : List (Nat × Nat) := []
  made : Nat := 0
  /-- The channels that were closed, in order. -/
  closed : List Nat := []
  deriving DecidableEq, Repr

namespace TimeList

/-- The channel for a deadline; `none` is the channel `closec`, which is always closed. -/
def wait (tl : TimeList) (deadline : Nat) : TimeList × Option Nat :=
  if deadline ≤ tl.lastTriggerDeadline then (tl, none)
  else
    match tl.m.lookup deadline with
    | some ch => (tl, some ch)
    | none => ({ tl with m := (deadline, tl.made) :: tl.m, made := tl.made + 1 }, some tl.made)

def trigger (tl : TimeList) (deadline : Nat) : TimeList :=
  { tl with
    lastTriggerDeadline := deadline
    m := tl.m.filter fun p => decide (deadline < p.1)
    closed := tl.closed ++ (tl.m.filter fun p => decide (p.1 ≤ deadline)).map Prod.snd }

def isClosed (tl : TimeList) : Option Nat → Bool
  | none => true
  | some ch => decide (ch ∈ tl.closed)

structure Sound (tl : TimeList) : Prop where
  above : ∀ p ∈ tl.m, tl.lastTriggerDeadline < p.1
  channels : (tl.m.map Prod.snd).Nodup
  isOpen : ∀ p ∈ tl.m, p.2 < tl.made ∧ p.2 ∉ tl.closed
  known : ∀ ch ∈ tl.closed, ch < tl.made
  /-- Closing a channel a second time would panic. -/
  once : tl.closed.Nodup

def Holds (tl : TimeList) (deadline : Nat) : Option Nat → Prop
  | none => deadline ≤ tl.lastTriggerDeadline
  | some ch => (deadline, ch) ∈ tl.m ∨ ch ∈ tl.closed ∧ deadline ≤ tl.lastTriggerDeadline

variable {tl : TimeList} {deadline : Nat} {ch : Option Nat}

theorem mem_of_lookup {m : List (Nat × Nat)} {key ch : Nat} (found : m.lookup key = some ch) : (key, ch) ∈ m := by
  induction m with
  | nil => cases found
  | cons p rest ih =>
    obtain ⟨k, c⟩ := p
    rw [List.lookup_cons] at found
    by_cases same : key = k
    · subst same
      simp only [beq_self_eq_true] at found
      cases found
      exact List.mem_cons_self
    · rw [beq_false_of_ne same] at found
      exact List.mem_cons_of_mem _ (ih found)

theorem Sound.wait (sound : Sound tl) (deadline : Nat) : Sound (tl.wait deadline).1 := by
  unfold TimeList.wait
  split
  · exact sound
  · next later =>
    split
    · exact sound
    · have low : ∀ p ∈ tl.m, p.2 < tl.made := fun p inside => (sound.isOpen p inside).1
      refine ⟨fun p inside => ?_, ?_, fun p inside => ?_, fun ch inside => ?_, sound.once⟩
      · rcases List.mem_cons.mp inside with rfl | old
        · exact Nat.lt_of_not_le later
        · exact sound.above p old
      · rw [List.map_cons, List.nodup_cons]
        refine ⟨fun inside => ?_, sound.channels⟩
        obtain ⟨p, old, same⟩ := List.mem_map.mp inside
        exact absurd (low p old) (by omega)
      · rcases List.mem_cons.mp inside with rfl | old
        · exact ⟨Nat.lt_succ_self _, fun shut => absurd (sound.known _ shut) (Nat.lt_irrefl _)⟩
        · exact ⟨Nat.lt_succ_of_lt (low p old), (sound.isOpen p old).2⟩
      · exact Nat.lt_succ_of_lt (sound.known ch inside)

theorem Sound.trigger (sound : Sound tl) (deadline : Nat) : Sound (tl.trigger deadline) := by
  have inside {p : Nat × Nat} {keep : Nat × Nat → Bool} (kept : p ∈ tl.m.filter keep) : p ∈ tl.m :=
    (List.mem_filter.mp kept).1
  refine ⟨fun p kept => ?_, ?_, fun p kept => ⟨(sound.isOpen p (inside kept)).1, fun shut => ?_⟩,
    fun ch shut => ?_, ?_⟩
  · show deadline < p.1
    simpa using (List.mem_filter.mp kept).2
  · exact sound.channels.sublist (List.filter_sublist.map _)
  · rcases List.mem_append.mp shut with old | new
    · exact (sound.isOpen p (inside kept)).2 old
    · -- the channel of an entry is in no other entry
      obtain ⟨q, due, same⟩ := List.mem_map.mp new
      have equal : q = p := List.inj_on_of_nodup_map sound.channels (inside due) (inside kept) same
      have late := (List.mem_filter.mp kept).2
      have early := (List.mem_filter.mp due).2
      rw [equal] at early
      simp only [decide_eq_true_eq] at late early
      omega
  · rcases List.mem_append.mp shut with old | new
    · exact sound.known ch old
    · obtain ⟨q, due, rfl⟩ := List.mem_map.mp new
      exact (sound.isOpen q (inside due)).1
  · refine List.nodup_append.mpr ⟨sound.once, sound.channels.sublist (List.filter_sublist.map _), fun a old b new => ?_⟩
    obtain ⟨q, due, rfl⟩ := List.mem_map.mp new
    rintro rfl
    exact (sound.isOpen q (inside due)).2 old

theorem wait_holds (tl : TimeList) (deadline : Nat) : (tl.wait deadline).1.Holds deadline (tl.wait deadline).2 := by
  unfold TimeList.wait
  split
  · next early => exact early
  · split
    · next ch found => exact .inl (mem_of_lookup found)
    · exact .inl List.mem_cons_self

theorem Holds.wait (holds : tl.Holds deadline ch) (other : Nat) : (tl.wait other).1.Holds deadline ch := by
  unfold TimeList.wait
  split
  · exact holds
  · split
    · exact holds
    · cases ch with
      | none => exact holds
      | some ch => exact holds.imp_left (List.mem_cons_of_mem _)

theorem Holds.trigger (holds : tl.Holds deadline ch) {next : Nat} (forward : tl.lastTriggerDeadline ≤ next) :
    (tl.trigger next).Holds deadline ch := by
  cases ch with
  | none => exact Nat.le_trans (show deadline ≤ tl.lastTriggerDeadline from holds) forward
  | some ch =>
    rcases holds with waits | ⟨shut, passed⟩
    · by_cases later : next < deadline
      · exact .inl (List.mem_filter.mpr ⟨waits, by simpa using later⟩)
      · refine .inr ⟨List.mem_append_right _ (List.mem_map.mpr ⟨_, List.mem_filter.mpr ⟨waits, ?_⟩, rfl⟩), ?_⟩
        · simpa using later
        · exact Nat.not_lt.mp later
    · exact .inr ⟨List.mem_append_left _ shut, passed.trans forward⟩

/-- A trigger that goes back makes a later waiter wait for what has long passed. -/
example : ((({} : TimeList).trigger 5).trigger 3).lastTriggerDeadline = 3 ∧
    (((({} : TimeList).trigger 5).trigger 3).wait 4).1.isClosed (((({} : TimeList).trigger 5).trigger 3).wait 4).2 = false := by
  decide

theorem Holds.isClosed_iff (holds : tl.Holds deadline ch) (sound : Sound tl) :
    tl.isClosed ch = true ↔ deadline ≤ tl.lastTriggerDeadline := by
  cases ch with
  | none => exact ⟨fun _ => holds, fun _ => rfl⟩
  | some ch =>
    simp only [isClosed, decide_eq_true_eq]
    rcases holds with waits | ⟨shut, passed⟩
    · have later := sound.above _ waits
      exact ⟨fun shut => absurd shut (sound.isOpen _ waits).2, fun passed => absurd passed (Nat.not_le.mpr later)⟩
    · exact ⟨fun _ => passed, fun _ => shut⟩

end TimeList

/-! ### The server -/

/-- Where a call of `handleGet` stands. -/
inductive ReadPhase where
  | idle
  /-- Before the index of the read is known. -/
  | asking
  | told (index : Nat)
  /-- At the channel that `applyWait.Wait` has returned. -/
  | waiting (index : Nat) (ch : Option Nat)
  /-- `proposeRead` has returned nil. -/
  | passed (index : Nat)
  | failed
  | got (value : Option Bytes)
  deriving DecidableEq, Repr

structure Gate where
  reqIDGen : Nat := 0
  registered : Nat → Bool := fun _ => false
  channel : Nat → Option Value := fun _ => none
  phase : Nat → ReadPhase := fun _ => .idle
  key : Nat → Bytes := fun _ => []
  applyWait : TimeList := {}
  sm : Store
  /-- The process has died of a failed type assertion. -/
  crashed : Bool := false
  /-- The entries that were applied since the start, in order. -/
  log : List Bytes := []
  /-- The indices with which raft has answered read requests. -/
  answers : List (Nat × Nat) := []

inductive GateEvent where
  /-- `handleGet` and `proposeRead` up to the call of `ReadIndex`. -/
  | read (key : Bytes)
  /-- `proposePut` draws an id and registers. -/
  | put
  /-- `ReadIndex` returns an error. -/
  | refused (id : Nat)
  /-- The server loop takes a read state. -/
  | readState (requestCtx : Bytes) (index : Nat)
  /-- The server loop takes a batch. -/
  | apply (ap : ToApply)
  | receive (id : Nat)
  | wait (id : Nat)
  /-- The deadline of a read passes. -/
  | expire (id : Nat)
  | proceed (id : Nat)
  | get (id : Nat)

namespace Gate

def goto (g : Gate) (id : Nat) (ph : ReadPhase) : Gate := { g with phase := Function.update g.phase id ph }

def register (g : Gate) : Gate :=
  { g with
    reqIDGen := g.reqIDGen + 1
    registered := Function.update g.registered (g.reqIDGen + 1) true
    channel := Function.update g.channel (g.reqIDGen + 1) none }

def trigger (g : Gate) (id : Nat) (x : Value) : Gate :=
  if g.registered id then
    { g with registered := Function.update g.registered id false, channel := Function.update g.channel id (some x) }
  else g

def applyEntry (g : Gate) (raw : Bytes) : Gate :=
  if raw = [] then g
  else
    match unmarshalEnvelope raw with
    | none => g
    | some (id, payload) =>
      match decodeRequest payload with
      | none => g.trigger id .error
      | some req =>
        if req.cmd = cmdPut then ({ g with sm := Function.update g.sm req.key (some req.value) } : Gate).trigger id .nil
        else g.trigger id .error

def applyBatch (g : Gate) (data : List Bytes) : Gate :=
  { data.foldl applyEntry g with log := g.log ++ data }

def contextId (requestCtx : Bytes) : Nat := ofLE requestCtx.reverse

def step (g : Gate) (e : GateEvent) : Gate :=
  if g.crashed then g
  else
    match e with
    | .read key =>
      { g.register.goto (g.reqIDGen + 1) .asking with key := Function.update g.key (g.reqIDGen + 1) key }
    | .put => g.register
    | .refused id => if g.phase id = .asking then (g.trigger id .nil).goto id .failed else g
    | .readState requestCtx index =>
      { g.trigger (contextId requestCtx) (.index index) with answers := g.answers ++ [(contextId requestCtx, index)] }
    | .apply ap =>
      if 0 < ap.appliedThru then
        { g.applyBatch ap.data with applyWait := g.applyWait.trigger ap.appliedThru }
      else g.applyBatch ap.data
    | .receive id =>
      if g.phase id = .asking then
        match g.channel id with
        | none => g
        | some (.index i) => g.goto id (.told i)
        -- what came through the channel is not a number
        | some _ => { g with crashed := true }
      else g
    | .wait id =>
      match g.phase id with
      | .told i => { g.goto id (.waiting i (g.applyWait.wait i).2) with applyWait := (g.applyWait.wait i).1 }
      | _ => g
    | .expire id =>
      match g.phase id with
      | .asking => (g.trigger id .nil).goto id .failed
      | .waiting _ _ => g.goto id .failed
      | _ => g
    | .proceed id =>
      match g.phase id with
      | .waiting i ch => if g.applyWait.isClosed ch then g.goto id (.passed i) else g
      | _ => g
    | .get id =>
      match g.phase id with
      | .passed _ => g.goto id (.got (g.sm (g.key id)))
      | _ => g

def Consecutive (base : Nat) (g : Gate) : GateEvent → Prop
  | .apply ap => ap.appliedThru = base + g.log.length + ap.data.length
  | _ => True

instance (base : Nat) (g : Gate) : (e : GateEvent) → Decidable (Consecutive base g e)
  | .apply ap => inferInstanceAs (Decidable (ap.appliedThru = base + g.log.length + ap.data.length))
  | .read _ | .put | .refused _ | .readState _ _ | .receive _ | .wait _ | .expire _ | .proceed _ | .get _ =>
    isTrue trivial

/-! ### What is known of a read -/

/-- What stands behind the phase of a read, on a server that started with `base` entries in the map `sm`. -/
def Stands (base : Nat) (sm : Store) (g : Gate) (id : Nat) : ReadPhase → Prop
  | .idle | .asking | .failed => True
  | .told i => (id, i) ∈ g.answers
  | .waiting i ch => (id, i) ∈ g.answers ∧ g.applyWait.Holds i ch
  | .passed i => (id, i) ∈ g.answers ∧ i ≤ base + g.log.length
  | .got value => ∃ i a, (id, i) ∈ g.answers ∧ i ≤ base + a ∧ a ≤ g.log.length ∧
      value = Server.applyBatch sm (g.log.take a) (g.key id)

structure Kept (base : Nat) (sm : Store) (g : Gate) : Prop where
  times : g.applyWait.Sound
  /-- The last batch is the last trigger. -/
  trigger : g.applyWait.lastTriggerDeadline = base + g.log.length ∨
    g.applyWait.lastTriggerDeadline = 0 ∧ g.log = []
  map : g.sm = Server.applyBatch sm g.log
  channel : ∀ id i, g.channel id = some (.index i) → (id, i) ∈ g.answers
  drawn : ∀ id, g.reqIDGen < id → g.phase id = .idle
  reads : ∀ id, Stands base sm g id (g.phase id)

/-- Two states that differ at most in who waits and in what a waiter without an index was sent. -/
structure Alike (g g' : Gate) : Prop where
  phase : g'.phase = g.phase
  applyWait : g'.applyWait = g.applyWait
  log : g'.log = g.log
  answers : g'.answers = g.answers
  key : g'.key = g.key
  reqIDGen : g'.reqIDGen = g.reqIDGen
  channel : ∀ id i, g'.channel id = some (.index i) → g.channel id = some (.index i)

variable {base : Nat} {sm : Store} {g g' g'' : Gate} {id : Nat} {ph : ReadPhase}

theorem Alike.trans (first : Alike g g') (second : Alike g' g'') : Alike g g'' where
  phase := second.phase.trans first.phase
  applyWait := second.applyWait.trans first.applyWait
  log := second.log.trans first.log
  answers := second.answers.trans first.answers
  key := second.key.trans first.key
  reqIDGen := second.reqIDGen.trans first.reqIDGen
  channel := fun id i there => first.channel id i (second.channel id i there)

theorem Alike.refl (g : Gate) : Alike g g := ⟨rfl, rfl, rfl, rfl, rfl, rfl, fun _ _ => id⟩

theorem trigger_alike (g : Gate) (id : Nat) {x : Value} (plain : ∀ i, x ≠ .index i) : Alike g (g.trigger id x) := by
  unfold trigger
  split
  · refine ⟨rfl, rfl, rfl, rfl, rfl, rfl, fun d i there => ?_⟩
    by_cases same : d = id
    · subst same
      exact absurd (Option.some.inj ((Function.update_self d (some x) g.channel).symm.trans there)) (plain i)
    · exact (Function.update_of_ne same _ _).symm.trans there
  · exact .refl g

theorem trigger_sm (g : Gate) (id : Nat) (x : Value) : (g.trigger id x).sm = g.sm := by
  unfold trigger
  split <;> rfl

/-- An entry changes the map as it does on every replica, and sends no index. -/
theorem applyEntry_spec (g : Gate) (raw : Bytes) :
    Alike g (g.applyEntry raw) ∧ (g.applyEntry raw).sm = applyRaw g.sm raw := by
  unfold applyEntry applyRaw
  by_cases empty : raw = []
  · rw [if_pos empty, if_pos empty]
    exact ⟨.refl g, rfl⟩
  rw [if_neg empty, if_neg empty]
  cases unmarshalEnvelope raw with
  | none => exact ⟨.refl g, rfl⟩
  | some envelope =>
    obtain ⟨id, payload⟩ := envelope
    cases decoded : decodeRequest payload with
    | none =>
      simp only [decoded]
      exact ⟨trigger_alike g id nofun, trigger_sm g id _⟩
    | some req =>
      simp only [decoded]
      by_cases isPut : req.cmd = cmdPut
      · rw [if_pos isPut, if_pos isPut]
        have stored : Alike g { g with sm := Function.update g.sm req.key (some req.value) } :=
          ⟨rfl, rfl, rfl, rfl, rfl, rfl, fun _ _ there => there⟩
        exact ⟨stored.trans (trigger_alike _ id nofun), trigger_sm _ id _⟩
      · rw [if_neg isPut, if_neg isPut]
        exact ⟨trigger_alike g id nofun, trigger_sm g id _⟩

theorem applyEntries_spec (g : Gate) (data : List Bytes) :
    Alike g (data.foldl applyEntry g) ∧ (data.foldl applyEntry g).sm = Server.applyBatch g.sm data := by
  induction data generalizing g with
  | nil => exact ⟨.refl g, rfl⟩
  | cons raw data ih =>
    obtain ⟨first, map⟩ := applyEntry_spec g raw
    obtain ⟨rest, last⟩ := ih (g.applyEntry raw)
    refine ⟨first.trans rest, ?_⟩
    rw [List.foldl_cons, last, map]
    rfl

/-- What is known of a read stays known. -/
theorem Stands.later (stands : Stands base sm g id ph) (answers : ∀ a ∈ g.answers, a ∈ g'.answers)
    (holds : ∀ i ch, g.applyWait.Holds i ch → g'.applyWait.Holds i ch) (log : g.log <+: g'.log)
    (key : g'.key id = g.key id) : Stands base sm g' id ph := by
  have longer := log.length_le
  cases ph with
  | idle | asking | failed => trivial
  | told i => exact answers _ stands
  | waiting i ch => exact ⟨answers _ stands.1, holds i ch stands.2⟩
  | passed i =>
    obtain ⟨answered, low⟩ := stands
    exact ⟨answers _ answered, by omega⟩
  | got value =>
    obtain ⟨i, a, answered, low, inside, same⟩ := stands
    refine ⟨i, a, answers _ answered, low, by omega, ?_⟩
    obtain ⟨rest, more⟩ := log
    rw [same, key, ← more, List.take_append_of_le_length inside]

theorem Kept.alike (kept : Kept base sm g) (alike : Alike g g') (map : g'.sm = g.sm) : Kept base sm g' where
  times := alike.applyWait ▸ kept.times
  trigger := by
    rw [alike.applyWait, alike.log]
    exact kept.trigger
  map := by
    rw [map, alike.log]
    exact kept.map
  channel := fun id i there => alike.answers ▸ kept.channel id i (alike.channel id i there)
  drawn := by
    rw [alike.reqIDGen, alike.phase]
    exact kept.drawn
  reads := fun id => by
    rw [alike.phase]
    refine (kept.reads id).later (fun a inside => alike.answers ▸ inside) (fun i ch holds => ?_) ?_ (by rw [alike.key])
    · rw [alike.applyWait]
      exact holds
    · rw [alike.log]

theorem Kept.goto (kept : Kept base sm g) (drawn : id ≤ g.reqIDGen) (stands : Stands base sm g id ph) :
    Kept base sm (g.goto id ph) := by
  refine ⟨kept.times, kept.trigger, kept.map, kept.channel, fun d above => ?_, fun d => ?_⟩
  · have differs : d ≠ id := by
      have low : g.reqIDGen < d := above
      omega
    exact (Function.update_of_ne differs _ _).trans (kept.drawn d above)
  · show Stands base sm (g.goto id ph) d (Function.update g.phase id ph d)
    by_cases same : d = id
    · subst same
      rw [Function.update_self]
      exact stands.later (fun _ inside => inside) (fun _ _ holds => holds) List.prefix_rfl rfl
    · rw [Function.update_of_ne same]
      exact (kept.reads d).later (fun _ inside => inside) (fun _ _ holds => holds) List.prefix_rfl rfl

theorem Kept.begun (kept : Kept base sm g) (busy : g.phase id ≠ .idle) : id ≤ g.reqIDGen := by
  by_contra above
  exact busy (kept.drawn id (by omega))

theorem Kept.register (kept : Kept base sm g) : Kept base sm g.register := by
  refine ⟨kept.times, kept.trigger, kept.map, fun d i there => ?_, fun d above => ?_, fun d => ?_⟩
  · by_cases same : d = g.reqIDGen + 1
    · subst same
      rw [show g.register.channel (g.reqIDGen + 1) = none from Function.update_self _ _ _] at there
      cases there
    · exact kept.channel d i ((Function.update_of_ne same _ _).symm.trans there)
  · have low : g.reqIDGen + 1 < d := above
    exact kept.drawn d (by omega)
  · exact (kept.reads d).later (fun _ inside => inside) (fun _ _ holds => holds) List.prefix_rfl rfl

theorem Kept.read (kept : Kept base sm g) (key : Bytes) :
    Kept base sm { g.register.goto (g.reqIDGen + 1) .asking with key := Function.update g.key (g.reqIDGen + 1) key } := by
  have moved : Kept base sm (g.register.goto (g.reqIDGen + 1) .asking) := kept.register.goto (Nat.le_refl _) trivial
  refine ⟨moved.times, moved.trigger, moved.map, moved.channel, moved.drawn, fun d => ?_⟩
  have stands := moved.reads d
  by_cases same : d = g.reqIDGen + 1
  · subst same
    rw [show (g.register.goto (g.reqIDGen + 1) .asking).phase (g.reqIDGen + 1) = .asking from
      Function.update_self _ _ _] at stands
    rw [show Gate.phase { g.register.goto (g.reqIDGen + 1) .asking with key := _ } (g.reqIDGen + 1) = .asking from
      Function.update_self _ _ _]
    trivial
  · exact stands.later (fun _ inside => inside) (fun _ _ holds => holds) List.prefix_rfl
      (Function.update_of_ne same _ _)

theorem Kept.readState (kept : Kept base sm g) (index : Nat) :
    Kept base sm { g.trigger id (.index index) with answers := g.answers ++ [(id, index)] } := by
  have noted : ∀ a ∈ g.answers, a ∈ g.answers ++ [(id, index)] := fun _ => List.mem_append_left _
  unfold Gate.trigger
  split
  · refine ⟨kept.times, kept.trigger, kept.map, fun d i there => ?_, kept.drawn,
      fun d => (kept.reads d).later noted (fun _ _ holds => holds) List.prefix_rfl rfl⟩
    by_cases same : d = id
    · subst same
      cases (Function.update_self d (some (Value.index index)) g.channel).symm.trans there
      simp
    · exact noted _ (kept.channel d i ((Function.update_of_ne same _ _).symm.trans there))
  · exact ⟨kept.times, kept.trigger, kept.map, fun d i there => noted _ (kept.channel d i there), kept.drawn,
      fun d => (kept.reads d).later noted (fun _ _ holds => holds) List.prefix_rfl rfl⟩

theorem Kept.low (kept : Kept base sm g) : g.applyWait.lastTriggerDeadline ≤ base + g.log.length := by
  rcases kept.trigger with same | ⟨zero, _⟩ <;> omega

theorem Kept.batch (kept : Kept base sm g) (data : List Bytes) {tl : TimeList} (times : tl.Sound)
    (holds : ∀ i ch, g.applyWait.Holds i ch → tl.Holds i ch)
    (trigger : tl.lastTriggerDeadline = base + (g.log ++ data).length ∨ tl.lastTriggerDeadline = 0 ∧ g.log ++ data = []) :
    Kept base sm { g.applyBatch data with applyWait := tl } := by
  obtain ⟨alike, map⟩ := applyEntries_spec g data
  refine ⟨times, trigger, ?_, fun id i there => ?_, ?_, fun id => ?_⟩
  · show (data.foldl applyEntry g).sm = Server.applyBatch sm (g.log ++ data)
    rw [map, kept.map, Server.applyBatch, Server.applyBatch, Server.applyBatch, List.foldl_append]
  · exact alike.answers ▸ kept.channel id i (alike.channel id i there)
  · show ∀ id, (data.foldl applyEntry g).reqIDGen < id → (data.foldl applyEntry g).phase id = .idle
    rw [alike.reqIDGen, alike.phase]
    exact kept.drawn
  · show Stands base sm _ id ((data.foldl applyEntry g).phase id)
    rw [alike.phase]
    refine (kept.reads id).later (fun a inside => ?_) holds (List.prefix_append g.log data) (congrFun alike.key id)
    exact alike.answers ▸ inside

theorem Kept.apply (kept : Kept base sm g) {ap : ToApply}
    (consecutive : ap.appliedThru = base + g.log.length + ap.data.length) :
    Kept base sm (if 0 < ap.appliedThru then
      { g.applyBatch ap.data with applyWait := g.applyWait.trigger ap.appliedThru } else g.applyBatch ap.data) := by
  have forward : g.applyWait.lastTriggerDeadline ≤ ap.appliedThru := by
    have low := kept.low
    omega
  split
  · refine kept.batch ap.data (kept.times.trigger _) (fun i ch holds => holds.trigger forward) (.inl ?_)
    show ap.appliedThru = base + (g.log ++ ap.data).length
    rw [List.length_append]
    omega
  · next zero =>
    -- nothing was there to apply
    have empty : g.log = [] ∧ ap.data = [] :=
      ⟨List.eq_nil_of_length_eq_zero (by omega), List.eq_nil_of_length_eq_zero (by omega)⟩
    have same : g.applyBatch ap.data = { g.applyBatch ap.data with applyWait := g.applyWait } := by
      rw [empty.2]
      rfl
    rw [same]
    refine kept.batch ap.data kept.times (fun _ _ holds => holds) (.inr ⟨by omega, by simp [empty]⟩)

theorem Kept.wait (kept : Kept base sm g) {i : Nat} (told : g.phase id = .told i) :
    Kept base sm { g.goto id (.waiting i (g.applyWait.wait i).2) with applyWait := (g.applyWait.wait i).1 } := by
  have answered := kept.reads id
  rw [told] at answered
  have last : (g.applyWait.wait i).1.lastTriggerDeadline = g.applyWait.lastTriggerDeadline := by
    unfold TimeList.wait
    split
    · rfl
    · split <;> rfl
  refine ⟨kept.times.wait i, ?_, kept.map, kept.channel, fun d above => ?_, fun d => ?_⟩
  · show (g.applyWait.wait i).1.lastTriggerDeadline = _ ∨ (g.applyWait.wait i).1.lastTriggerDeadline = 0 ∧ _
    rw [last]
    exact kept.trigger
  · have differs : d ≠ id := by
      rintro rfl
      rw [kept.drawn d above] at told
      cases told
    exact (Function.update_of_ne differs _ _).trans (kept.drawn d above)
  · show Stands base sm _ d (Function.update g.phase id _ d)
    by_cases same : d = id
    · subst same
      rw [Function.update_self]
      exact ⟨answered, g.applyWait.wait_holds i⟩
    · rw [Function.update_of_ne same]
      exact (kept.reads d).later (fun _ inside => inside) (fun _ _ holds => holds.wait i) List.prefix_rfl rfl

theorem Kept.abandon (kept : Kept base sm g) (asks : g.phase id = .asking) :
    Kept base sm ((g.trigger id .nil).goto id .failed) := by
  have alike := trigger_alike g id (x := .nil) nofun
  refine (kept.alike alike (trigger_sm g id .nil)).goto ?_ trivial
  rw [alike.reqIDGen]
  exact kept.begun (by rw [asks]; nofun)

theorem Kept.step (kept : Kept base sm g) {e : GateEvent} (consecutive : Consecutive base g e) :
    Kept base sm (g.step e) := by
  unfold Gate.step
  split
  · exact kept
  cases e with
  | read key => exact kept.read key
  | put => exact kept.register
  | refused id =>
    dsimp only
    split
    · next asks => exact kept.abandon asks
    · exact kept
  | readState requestCtx index => exact kept.readState index
  | apply ap => exact kept.apply consecutive
  | receive id =>
    dsimp only
    split
    · next asks =>
      split
      · exact kept
      · next i there => exact kept.goto (kept.begun (by rw [asks]; nofun)) (kept.channel id i there)
      · exact ⟨kept.times, kept.trigger, kept.map, kept.channel, kept.drawn,
          fun d => (kept.reads d).later (fun _ inside => inside) (fun _ _ holds => holds) List.prefix_rfl rfl⟩
    · exact kept
  | wait id =>
    dsimp only
    split
    · next i told => exact kept.wait told
    · exact kept
  | expire id =>
    dsimp only
    split
    · next asks => exact kept.abandon asks
    · next waits => exact kept.goto (kept.begun (by rw [waits]; nofun)) trivial
    · exact kept
  | proceed id =>
    dsimp only
    split
    · next i ch waits =>
      have stands := kept.reads id
      rw [waits] at stands
      split
      · next shut =>
        have low := (stands.2.isClosed_iff kept.times).mp shut
        exact kept.goto (kept.begun (by rw [waits]; nofun)) ⟨stands.1, low.trans kept.low⟩
      · exact kept
    · exact kept
  | get id =>
    dsimp only
    split
    · next i passed =>
      have stands := kept.reads id
      rw [passed] at stands
      refine kept.goto (kept.begun (by rw [passed]; nofun)) ⟨i, g.log.length, stands.1, stands.2, Nat.le_refl _, ?_⟩
      rw [List.take_length, ← kept.map]
    · exact kept

theorem kept_start (base : Nat) (sm : Store) : Kept base sm { sm } := by
  refine ⟨⟨nofun, List.nodup_nil, nofun, nofun, List.nodup_nil⟩, .inr ⟨rfl, rfl⟩, rfl, nofun, fun _ _ => rfl,
    fun _ => trivial⟩

/-- A read returns the value of its key after some beginning of the log that reaches at least up to an index
with which raft has answered the request of this read. -/
theorem reads_reach_their_index (base : Nat) (sm : Store) (events : List GateEvent)
    (consecutive : Runs.Along step (Consecutive base) { sm } events) :
    ∃ g, g = Runs.exec step { sm } events ∧ ∀ id value, g.phase id = .got value →
      ∃ i a, (id, i) ∈ g.answers ∧ i ≤ base + a ∧ a ≤ g.log.length ∧
        value = Server.applyBatch sm (g.log.take a) (g.key id) := by
  have kept := Runs.invariant step (Kept base sm) (fun _ _ kept ok => kept.step ok) (kept_start base sm) consecutive
  refine ⟨_, rfl, fun id value got => ?_⟩
  have stands := kept.reads id
  rwa [got] at stands

def lateRead : List GateEvent :=
  [.read [107], .apply ⟨[[]], 1⟩, .readState (le 8 1).reverse 2, .receive 1, .wait 1,
    .apply ⟨[marshalEnvelope 9 ((encodeRequest ⟨cmdPut, [107], [1], 0⟩).getD [])], 2⟩, .proceed 1, .get 1]

theorem lateRead_reaches : ∃ g, g = Runs.exec step { sm := fun _ => none } lateRead ∧ g.phase 1 = .got (some [1]) ∧
    ∃ i a, (1, i) ∈ g.answers ∧ i ≤ 0 + a ∧ a ≤ g.log.length ∧
      some [1] = Server.applyBatch (fun _ => none) (g.log.take a) (g.key 1) := by
  obtain ⟨g, here, reads⟩ := reads_reach_their_index 0 (fun _ => none) lateRead (by decide +kernel)
  have got : g.phase 1 = .got (some [1]) := by
    rw [here]
    decide +kernel
  exact ⟨g, here, got, reads 1 _ got⟩

/-- Once anything was applied, a waiting read can go on exactly if the log was applied up to its index, however
its wait and the batches came in between; and no channel is ever closed twice. -/
theorem waiting_reads_wake (base : Nat) (sm : Store) (events : List GateEvent)
    (consecutive : Runs.Along step (Consecutive base) { sm } events) :
    ∃ g, g = Runs.exec step { sm } events ∧ g.applyWait.closed.Nodup ∧
      (g.log ≠ [] → ∀ id i ch, g.phase id = .waiting i ch →
        (g.applyWait.isClosed ch = true ↔ i ≤ base + g.log.length)) := by
  have kept := Runs.invariant step (Kept base sm) (fun _ _ kept ok => kept.step ok) (kept_start base sm) consecutive
  refine ⟨_, rfl, kept.times.once, fun begun id i ch waits => ?_⟩
  have stands := kept.reads id
  rw [waits] at stands
  rw [stands.2.isClosed_iff kept.times, kept.trigger.resolve_right (fun none => begun none.2)]

theorem lateRead_waits : ∃ g, g = Runs.exec step { sm := fun _ => none } (lateRead.take 5) ∧
    g.phase 1 = .waiting 2 (some 0) ∧ g.log.length = 1 ∧
    (g.applyWait.isClosed (some 0) = true ↔ 2 ≤ 0 + g.log.length) := by
  obtain ⟨g, here, -, wakes⟩ := waiting_reads_wake 0 (fun _ => none) (lateRead.take 5) (by decide +kernel)
  have waits : g.phase 1 = .waiting 2 (some 0) := by
    rw [here]
    decide +kernel
  have applied : g.log.length = 1 := by
    rw [here]
    decide +kernel
  have begun : g.log ≠ [] := fun empty => by simp [empty] at applied
  exact ⟨g, here, waits, applied, wakes begun 1 2 (some 0) waits⟩

end Gate

end Server

end Kvgo

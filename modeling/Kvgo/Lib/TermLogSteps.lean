import Kvgo.Lib.TermLog

/-! The steps of the replicated log. A step is the act of one node. A node that
accepts entries of its leader must not lose entries without a conflict; the rest
is the usual protocol. The invariant holds in every state reached, and with it
any two prefixes chosen by a majority are prefixes of one another. -/

namespace TermLog

def put {α β γ : Type*} [DecidableEq α] [DecidableEq β] (f : α → β → γ) (a : α) (b : β) (v : γ) :
    α → β → γ :=
  fun x y => if x = a ∧ y = b then v else f x y

section Put

variable {α β γ : Type*} [DecidableEq α] [DecidableEq β] (f : α → β → γ) (a : α) (b : β) (v : γ)

@[simp] theorem put_same : put f a b v a b = v := by simp [put]

theorem put_ne_left {x : α} (other : x ≠ a) (y : β) : put f a b v x y = f x y := by simp [put, other]

end Put

section Steps

variable {ν ε : Type*} [DecidableEq ν] (τ : ε → Nat) (voters : List ν)

namespace State

def raise (s : State ν ε) (n : ν) (t : Nat) : State ν ε :=
  { s with term := Function.update s.term n t }

def standFor (s : State ν ε) (n : ν) : State ν ε :=
  { s with
    term := Function.update s.term n (s.term n + 1)
    vote := put s.vote n (s.term n + 1) (some n)
    stand := put s.stand (s.term n + 1) n (some (s.log n)) }

def grant (s : State ν ε) (n c : ν) : State ν ε :=
  { s with vote := put s.vote n (s.term n) (some c) }

def elect (s : State ν ε) (n : ν) : State ν ε :=
  { s with
    leader := Function.update s.leader (s.term n) (some n)
    llog := Function.update s.llog (s.term n) (s.log n)
    base := Function.update s.base (s.term n) (s.log n).length
    acked := put s.acked n (s.term n) (s.log n).length }

def append (s : State ν ε) (n : ν) (e : ε) : State ν ε :=
  { s with
    log := Function.update s.log n (s.log n ++ [e])
    llog := Function.update s.llog (s.term n) (s.log n ++ [e])
    acked := put s.acked n (s.term n) ((s.log n).length + 1) }

def accept (s : State ν ε) (n : ν) (k : Nat) : State ν ε :=
  { s with
    log := Function.update s.log n ((s.llog (s.term n)).take k)
    acked := put s.acked n (s.term n) k }

end State

/-- One act of node `n`. -/
inductive Step (n : ν) (s : State ν ε) : State ν ε → Prop
  | raise (t : Nat) (later : s.term n < t) : Step n s (s.raise n t)
  | stand : Step n s (s.standFor n)
  | grant (c : ν) (L : List ε) (stood : s.stand (s.term n) c = some L)
      (upToDate : UpToDate τ L (s.log n))
      (free : s.vote n (s.term n) = none ∨ s.vote n (s.term n) = some c) : Step n s (s.grant n c)
  | elect (stood : s.stand (s.term n) n = some (s.log n))
      (won : Majority voters (fun q => s.vote q (s.term n) = some n))
      (new : s.leader (s.term n) ≠ some n) : Step n s (s.elect n)
  | append (e : ε) (leads : s.leader (s.term n) = some n) (own : s.llog (s.term n) = s.log n)
      (current : τ e = s.term n) : Step n s (s.append n e)
  | accept (k : Nat) (leads : s.leader (s.term n) ≠ none)
      (bound : k ≤ (s.llog (s.term n)).length)
      (noLoss : (s.log n).length ≤ k ∨ ¬(s.llog (s.term n)).take k <+: s.log n) :
      Step n s (s.accept n k)

variable {τ voters} {s s' : State ν ε} {n : ν}

/-! Steps that do not touch the logs. -/

theorem ext_raise {t : Nat} (later : s.term n < t) : Ext s (s.raise n t) where
  term q := by
    by_cases same : q = n
    · subst same; simpa [State.raise] using later.le
    · simp [State.raise, same]
  vote _ _ _ here := here
  stand _ _ _ here := here
  leader _ _ here := here
  llog _ := List.prefix_refl _
  base _ _ := rfl
  acked _ _ := le_rfl
  frozen _ _ _ := rfl

theorem Inv.raise (inv : Inv τ voters s) {t : Nat} (later : s.term n < t) :
    Inv τ voters (s.raise n t) :=
  inv.politics (ext_raise later) rfl rfl rfl rfl rfl (fun _ _ _ here => .inl here)
    (fun _ _ _ here => .inl here)

theorem Inv.ext_stand (inv : Inv τ voters s) (n : ν) : Ext s (s.standFor n) where
  term q := by
    by_cases same : q = n
    · subst same; simp [State.standFor]
    · simp [State.standFor, same]
  vote q t c here := by
    have old := (inv.voted q t c here).1
    simp only [State.standFor, put]
    rw [if_neg]
    · exact here
    · rintro ⟨rfl, rfl⟩; omega
  stand t q L here := by
    have old := (inv.stood t q L here).1
    simp only [State.standFor, put]
    rw [if_neg]
    · exact here
    · rintro ⟨rfl, rfl⟩; omega
  leader _ _ here := here
  llog _ := List.prefix_refl _
  base _ _ := rfl
  acked _ _ := le_rfl
  frozen _ _ _ := rfl

theorem Inv.stand (inv : Inv τ voters s) (n : ν) : Inv τ voters (s.standFor n) := by
  have ext := inv.ext_stand n
  refine inv.politics ext rfl rfl rfl rfl rfl ?_ ?_
  · intro t q L here
    simp only [State.standFor, put] at here
    split at here
    · rename_i new
      obtain ⟨rfl, rfl⟩ := new
      cases here
      refine .inr ⟨by simp [State.standFor], by omega, by simp [State.standFor], ?_, (inv.nodeLog q).1⟩
      intro e inside
      have := (inv.nodeLog q).2 e inside
      omega
    · exact .inl here
  · intro q t c here
    simp only [State.standFor, put] at here
    split at here
    · rename_i new
      obtain ⟨rfl, rfl⟩ := new
      cases here
      refine .inr ⟨by simp [State.standFor], s.log q, by simp [State.standFor], ?_⟩
      intro t0 i earlier above bound
      rcases Nat.lt_or_ge t0 (s.term q) with before | now
      · exact (inv.past q t0 i before above bound).imp_right (Dead.ext ext)
      · obtain rfl : t0 = s.term q := by omega
        exact .inl ((inv.now q).mono bound)
    · exact .inl here

theorem ext_grant {c : ν} (free : s.vote n (s.term n) = none ∨ s.vote n (s.term n) = some c) :
    Ext s (s.grant n c) where
  term _ := le_rfl
  vote q t c' here := by
    simp only [State.grant, put]
    split
    · rename_i new
      obtain ⟨rfl, rfl⟩ := new
      rcases free with none | same
      · rw [none] at here; cases here
      · exact same.symm.trans here
    · exact here
  stand _ _ _ here := here
  leader _ _ here := here
  llog _ := List.prefix_refl _
  base _ _ := rfl
  acked _ _ := le_rfl
  frozen _ _ _ := rfl

theorem Inv.grant (inv : Inv τ voters s) {c : ν} {L : List ε}
    (stood : s.stand (s.term n) c = some L) (upToDate : UpToDate τ L (s.log n))
    (free : s.vote n (s.term n) = none ∨ s.vote n (s.term n) = some c) :
    Inv τ voters (s.grant n c) := by
  have ext := ext_grant free
  refine inv.politics ext rfl rfl rfl rfl rfl (fun _ _ _ here => .inl here) ?_
  intro q t c' here
  simp only [State.grant, put] at here
  split at here
  · rename_i new
    obtain ⟨rfl, rfl⟩ := new
    cases here
    refine .inr ⟨le_rfl, L, stood, fun t0 i earlier above bound => ?_⟩
    rcases inv.past q t0 i earlier above bound with has | dead
    · exact (inv.upToDate_agree (inv.stood _ _ L stood).2.2.2.2 (inv.nodeLog q).1 upToDate above has).imp_right
        (Dead.ext ext)
    · exact .inr (dead.ext ext)
  · exact .inl here

/-! Elections. -/

theorem Inv.ext_elect (inv : Inv τ voters s) (vacant : s.leader (s.term n) = none) :
    Ext s (s.elect n) where
  term _ := le_rfl
  vote _ _ _ here := here
  stand _ _ _ here := here
  leader t q here := by
    by_cases same : t = s.term n
    · rw [same, vacant] at here; cases here
    · simpa [State.elect, same] using here
  llog t := by
    by_cases same : t = s.term n
    · rw [same, (inv.vacant _ vacant).1]; exact List.nil_prefix
    · simp [State.elect, same]
  base t here := by
    by_cases same : t = s.term n
    · rw [same] at here; exact absurd vacant here
    · simp [State.elect, same]
  acked q t := by
    simp only [State.elect, put]
    split
    · rename_i new
      have := inv.ackedBound q t
      rw [new.2, (inv.vacant _ vacant).1] at this
      rw [new.2]
      simp at this
      omega
    · exact le_rfl
  frozen q t gone := by
    simp only [State.elect, put]
    rw [if_neg]
    rintro ⟨rfl, rfl⟩
    omega

theorem State.elect_llog : (s.elect n).llog (s.term n) = s.log n := by simp [State.elect]

theorem State.elect_base : (s.elect n).base (s.term n) = (s.log n).length := by simp [State.elect]

theorem State.elect_llog_ne {t : Nat} (other : t ≠ s.term n) : (s.elect n).llog t = s.llog t := by
  simp [State.elect, other]

theorem State.elect_base_ne {t : Nat} (other : t ≠ s.term n) : (s.elect n).base t = s.base t := by
  simp [State.elect, other]

theorem State.elect_leader_ne {t : Nat} (other : t ≠ s.term n) : (s.elect n).leader t = s.leader t := by
  simp [State.elect, other]

theorem State.elect_acked_ne (q : ν) {t : Nat} (other : t ≠ s.term n) :
    (s.elect n).acked q t = s.acked q t := by
  simp [State.elect, put, other]

theorem Inv.elect_later (inv : Inv τ voters s) (stood : s.stand (s.term n) n = some (s.log n))
    (won : Majority voters (fun q => s.vote q (s.term n) = some n)) (vacant : s.leader (s.term n) = none)
    {t t' i : Nat} (leads : (s.elect n).leader t' ≠ none) (earlier : t < t')
    (above : (s.elect n).base t < i) :
    (Agree i ((s.elect n).llog t') ((s.elect n).llog t) ∧ i ≤ (s.elect n).base t') ∨
      Dead voters (s.elect n) t i := by
  have ext := inv.ext_elect vacant
  by_cases now : t' = s.term n
  · subst now
    rw [State.elect_base_ne (by omega)] at above
    rw [State.elect_llog, State.elect_base, State.elect_llog_ne (by omega)]
    exact (inv.winner_has stood won earlier above).imp (fun has => ⟨has, has.2.1⟩) (Dead.ext ext)
  · rw [State.elect_leader_ne now] at leads
    by_cases same : t = s.term n
    · subst same
      exact .inr ((inv.dead_of_vacant vacant leads earlier (by omega)).ext ext)
    · rw [State.elect_base_ne same] at above
      rw [State.elect_llog_ne now, State.elect_llog_ne same, State.elect_base_ne now]
      exact (inv.later t' t i leads earlier above).imp_right (Dead.ext ext)

theorem Inv.elect (inv : Inv τ voters s) (stood : s.stand (s.term n) n = some (s.log n))
    (won : Majority voters (fun q => s.vote q (s.term n) = some n))
    (new : s.leader (s.term n) ≠ some n) : Inv τ voters (s.elect n) := by
  have vacant := inv.vacant_of_won won new
  have ext := inv.ext_elect vacant
  have ackedT (q : ν) : (s.elect n).acked q (s.term n) ≤ (s.log n).length := by
    simp only [State.elect, put, inv.acked_vacant vacant q]
    split <;> omega
  constructor
  case stood =>
    intro t q L here
    obtain ⟨low, positive, vote, terms, ok⟩ := inv.stood t q L here
    exact ⟨low, positive, vote, terms, ok.ext ext⟩
  case voted => exact inv.voted
  case led =>
    intro t q here
    by_cases same : t = s.term n
    · subst same
      obtain rfl : n = q := by simpa [State.elect] using here
      rw [State.elect_base, State.elect_llog]
      exact ⟨s.log n, stood, Agree.refl le_rfl, rfl, won⟩
    · rw [State.elect_base_ne same, State.elect_llog_ne same]
      exact inv.led t q (State.elect_leader_ne same ▸ here)
  case vacant =>
    intro t here
    have same : t ≠ s.term n := by rintro rfl; simp [State.elect] at here
    rw [State.elect_base_ne same, State.elect_llog_ne same]
    exact inv.vacant t (State.elect_leader_ne same ▸ here)
  case own =>
    intro t i e here
    by_cases same : t = s.term n
    · subst same
      rw [State.elect_llog] at here
      rw [State.elect_base]
      have inside := (List.getElem?_eq_some_iff.mp here).1
      have terms := (inv.stood _ _ _ stood).2.2.2.1
      exact ⟨fun above => by omega, fun _ => terms e (List.mem_of_getElem? here)⟩
    · rw [State.elect_base_ne same]
      exact inv.own t i e (State.elect_llog_ne same ▸ here)
  case leaderLog =>
    intro t
    by_cases same : t = s.term n
    · rw [same, State.elect_llog]; exact (inv.nodeLog n).1.ext ext
    · rw [State.elect_llog_ne same]; exact (inv.leaderLog t).ext ext
  case nodeLog => exact fun q => ⟨(inv.nodeLog q).1.ext ext, (inv.nodeLog q).2⟩
  case ackedBound =>
    intro q t
    by_cases same : t = s.term n
    · rw [same, State.elect_llog]; exact ackedT q
    · rw [State.elect_acked_ne q same, State.elect_llog_ne same]; exact inv.ackedBound q t
  case ackedTerm =>
    intro q t positive
    by_cases self : q = n ∧ t = s.term n
    · obtain ⟨rfl, rfl⟩ := self; exact le_rfl
    · exact inv.ackedTerm q t (by simpa [State.elect, put, self] using positive)
  case now =>
    intro q
    by_cases self : q = n
    · subst self
      show Agree ((s.elect q).acked q (s.term q)) (s.log q) ((s.elect q).llog (s.term q))
      rw [State.elect_llog]
      exact Agree.refl (ackedT q)
    · have same : (s.elect n).acked q (s.term q) = s.acked q (s.term q) := put_ne_left _ _ _ _ self _
      show Agree ((s.elect n).acked q (s.term q)) (s.log q) _
      rw [same]
      exact (inv.now q).right (ext.llog _)
  case past =>
    intro q t i earlier above bound
    by_cases same : t = s.term n
    · subst same
      have other : q ≠ n := by rintro rfl; exact absurd earlier (lt_irrefl _)
      rw [show (s.elect n).acked q (s.term n) = s.acked q (s.term n) from put_ne_left _ _ _ _ other _,
        inv.acked_vacant vacant q] at bound
      omega
    · rw [State.elect_base_ne same] at above
      rw [State.elect_acked_ne q same] at bound
      exact (inv.past q t i earlier above bound).imp (fun has => has.right (ext.llog t)) (Dead.ext ext)
  case ballot =>
    intro q t' c L t i vote stand earlier above bound
    by_cases same : t = s.term n
    · subst same
      rw [State.elect_base] at above
      have := ackedT q
      omega
    · rw [State.elect_base_ne same] at above
      rw [State.elect_acked_ne q same] at bound
      exact (inv.ballot q t' c L t i vote stand earlier above bound).imp
        (fun has => has.right (ext.llog t)) (Dead.ext ext)
  case later => exact fun t' t i => inv.elect_later stood won vacant

/-! The leader appends. -/

theorem Inv.ext_append (inv : Inv τ voters s) {e : ε} (own : s.llog (s.term n) = s.log n) :
    Ext s (s.append n e) where
  term _ := le_rfl
  vote _ _ _ here := here
  stand _ _ _ here := here
  leader _ _ here := here
  llog t := by
    by_cases same : t = s.term n
    · rw [same, own]; simp [State.append]
    · simp [State.append, same]
  base _ _ := rfl
  acked q t := by
    simp only [State.append, put]
    split
    · rename_i new
      have := inv.ackedBound q t
      rw [new.2, own] at this
      rw [new.2]
      omega
    · exact le_rfl
  frozen q t gone := by
    simp only [State.append, put]
    rw [if_neg]
    rintro ⟨rfl, rfl⟩
    omega

theorem State.append_llog {e : ε} : (s.append n e).llog (s.term n) = s.log n ++ [e] := by
  simp [State.append]

theorem State.append_llog_ne {e : ε} {t : Nat} (other : t ≠ s.term n) : (s.append n e).llog t = s.llog t := by
  simp [State.append, other]

theorem State.append_log {e : ε} : (s.append n e).log n = s.log n ++ [e] := by simp [State.append]

theorem State.append_log_ne {e : ε} {q : ν} (other : q ≠ n) : (s.append n e).log q = s.log q := by
  simp [State.append, other]

theorem State.log_prefix_append {e : ε} (q : ν) : s.log q <+: (s.append n e).log q := by
  by_cases self : q = n
  · subst self
    rw [State.append_log]
    exact List.prefix_append _ _
  · rw [State.append_log_ne self]

/-- The new entry is behind the base of its term and carries the term. -/
theorem Inv.append_own (inv : Inv τ voters s) {e : ε} (own : s.llog (s.term n) = s.log n)
    (current : τ e = s.term n) {t i : Nat} {d : ε} (here : ((s.append n e).llog t)[i]? = some d) :
    (s.base t ≤ i → τ d = t) ∧ (i < s.base t → τ d < t) := by
  by_cases same : t = s.term n
  · subst same
    rw [State.append_llog] at here
    rcases Nat.lt_or_ge i (s.log n).length with inside | outside
    · rw [List.getElem?_append_left inside, ← own] at here
      exact inv.own _ i d here
    · have last := (List.getElem?_eq_some_iff.mp here).1
      rw [List.length_append, List.length_singleton] at last
      obtain rfl : i = (s.log n).length := by omega
      obtain rfl : e = d := by simpa using here
      have behind := inv.base_le (s.term n)
      rw [own] at behind
      exact ⟨fun _ => current, fun below => absurd below (Nat.not_lt.mpr behind)⟩
  · exact inv.own t i d (State.append_llog_ne same ▸ here)

theorem Inv.append (inv : Inv τ voters s) {e : ε} (leads : s.leader (s.term n) = some n)
    (own : s.llog (s.term n) = s.log n) (current : τ e = s.term n) : Inv τ voters (s.append n e) := by
  have ext := inv.ext_append (e := e) own
  have grown : LogOK τ (s.append n e) (s.log n ++ [e]) :=
    (inv.nodeLog n).1.snoc ext (by rw [current, State.append_llog])
  constructor
  case stood =>
    intro t q L here
    obtain ⟨low, positive, vote, terms, ok⟩ := inv.stood t q L here
    exact ⟨low, positive, vote, terms, ok.ext ext⟩
  case voted => exact inv.voted
  case led =>
    intro t q here
    obtain ⟨L, stood, same, length, most⟩ := inv.led t q here
    exact ⟨L, stood, same.right (ext.llog t), length, most⟩
  case vacant =>
    intro t here
    have other : t ≠ s.term n := by rintro rfl; exact absurd (leads.symm.trans here) (by simp)
    rw [State.append_llog_ne other]
    exact inv.vacant t here
  case own => exact fun t i d here => inv.append_own own current here
  case leaderLog =>
    intro t
    by_cases same : t = s.term n
    · rw [same, State.append_llog]; exact grown
    · rw [State.append_llog_ne same]; exact (inv.leaderLog t).ext ext
  case nodeLog =>
    intro q
    by_cases self : q = n
    · subst self
      rw [State.append_log]
      refine ⟨grown, fun d inside => ?_⟩
      rcases List.mem_append.mp inside with old | new
      · exact (inv.nodeLog q).2 d old
      · rw [List.mem_singleton.mp new]; exact current.le
    · rw [State.append_log_ne self]
      exact ⟨(inv.nodeLog q).1.ext ext, (inv.nodeLog q).2⟩
  case ackedBound =>
    intro q t
    simp only [State.append, put]
    split
    · rename_i new
      simp [new.2]
    · have := (ext.llog t).length_le
      simp only [State.append] at this
      exact (inv.ackedBound q t).trans this
  case ackedTerm =>
    intro q t positive
    by_cases self : q = n ∧ t = s.term n
    · obtain ⟨rfl, rfl⟩ := self; exact le_rfl
    · exact inv.ackedTerm q t (by simpa [State.append, put, self] using positive)
  case now =>
    intro q
    by_cases self : q = n
    · subst self
      show Agree ((s.append q e).acked q (s.term q)) ((s.append q e).log q) ((s.append q e).llog (s.term q))
      rw [State.append_log, State.append_llog]
      exact Agree.refl (by simp [State.append])
    · show Agree ((s.append n e).acked q (s.term q)) ((s.append n e).log q) _
      rw [show (s.append n e).acked q (s.term q) = s.acked q (s.term q) from put_ne_left _ _ _ _ self _,
        State.append_log_ne self]
      exact (inv.now q).right (ext.llog _)
  case past =>
    intro q t i earlier above bound
    rw [ext.frozen q t earlier] at bound
    rcases inv.past q t i earlier above bound with has | dead
    · exact .inl ((has.right (ext.llog t)).symm.right (State.log_prefix_append q)).symm
    · exact .inr (dead.ext ext)
  case ballot =>
    intro q t' c L t i vote stand earlier above bound
    have low := (inv.voted q t' c vote).1
    rw [ext.frozen q t (by omega)] at bound
    exact (inv.ballot q t' c L t i vote stand earlier above bound).imp
      (fun has => has.right (ext.llog t)) (Dead.ext ext)
  case later =>
    intro t' t i leads earlier above
    exact (inv.later t' t i leads earlier above).imp
      (fun has => ⟨((has.1.right (ext.llog t)).symm.right (ext.llog t')).symm, has.2⟩) (Dead.ext ext)

/-! A follower accepts. -/

theorem kept_of_noLoss {L M : List ε} {i k : Nat} (noLoss : L.length ≤ k ∨ ¬M.take k <+: L)
    (has : Agree i L M) : i ≤ k := by
  by_contra short
  have sub : M.take k <+: L := by
    have part := has.mono (show k ≤ i by omega)
    exact part.1 ▸ List.take_prefix k L
  rcases noLoss with long | differ
  · have := has.2.1; omega
  · exact differ sub

theorem Inv.ext_accept (inv : Inv τ voters s) {k : Nat}
    (noLoss : (s.log n).length ≤ k ∨ ¬(s.llog (s.term n)).take k <+: s.log n) :
    Ext s (s.accept n k) where
  term _ := le_rfl
  vote _ _ _ here := here
  stand _ _ _ here := here
  leader _ _ here := here
  llog _ := List.prefix_refl _
  base _ _ := rfl
  acked q t := by
    simp only [State.accept, put]
    split
    · rename_i new
      obtain ⟨rfl, rfl⟩ := new
      exact kept_of_noLoss noLoss (inv.now q)
    · exact le_rfl
  frozen q t gone := by
    simp only [State.accept, put]
    rw [if_neg]
    rintro ⟨rfl, rfl⟩
    omega

theorem Inv.accept (inv : Inv τ voters s) {k : Nat} (leads : s.leader (s.term n) ≠ none)
    (bound : k ≤ (s.llog (s.term n)).length)
    (noLoss : (s.log n).length ≤ k ∨ ¬(s.llog (s.term n)).take k <+: s.log n) :
    Inv τ voters (s.accept n k) := by
  have ext := inv.ext_accept noLoss
  have logN : (s.accept n k).log n = (s.llog (s.term n)).take k := by simp [State.accept]
  have logQ : ∀ q, q ≠ n → (s.accept n k).log q = s.log q := fun q other => by
    simp [State.accept, other]
  constructor
  · intro t q L here
    obtain ⟨low, positive, vote, terms, ok⟩ := inv.stood t q L here
    exact ⟨low, positive, vote, terms, ok.ext ext⟩
  · exact inv.voted
  · exact inv.led
  · exact inv.vacant
  · exact inv.own
  · exact fun t => (inv.leaderLog t).ext ext
  · intro q
    by_cases self : q = n
    · subst self
      rw [logN]
      refine ⟨((inv.leaderLog _).take k).ext ext, fun e inside => ?_⟩
      obtain ⟨i, here⟩ := List.mem_iff_getElem?.mp (List.mem_of_mem_take inside)
      have owned := inv.own _ i e here
      rcases Nat.lt_or_ge i (s.base (s.term q)) with below | above
      · exact (owned.2 below).le
      · exact (owned.1 above).le
    · rw [logQ q self]
      exact ⟨(inv.nodeLog q).1.ext ext, (inv.nodeLog q).2⟩
  · intro q t
    simp only [State.accept, put]
    split
    · rename_i new
      rw [new.2]; exact bound
    · exact inv.ackedBound q t
  · intro q t positive
    by_cases self : q = n ∧ t = s.term n
    · obtain ⟨rfl, rfl⟩ := self; exact le_rfl
    · exact inv.ackedTerm q t (by simpa [State.accept, put, self] using positive)
  · intro q
    by_cases self : q = n
    · subst self
      show Agree ((s.accept q k).acked q (s.term q)) ((s.accept q k).log q) (s.llog (s.term q))
      rw [logN, show (s.accept q k).acked q (s.term q) = k by simp [State.accept]]
      exact agree_take bound
    · show Agree ((s.accept n k).acked q (s.term q)) ((s.accept n k).log q) (s.llog (s.term q))
      rw [logQ q self,
        show (s.accept n k).acked q (s.term q) = s.acked q (s.term q) from put_ne_left _ _ _ _ self _]
      exact inv.now q
  · intro q t i earlier above reached
    rw [ext.frozen q t earlier] at reached
    rcases inv.past q t i earlier above reached with has | dead
    · by_cases self : q = n
      · subst self
        rcases inv.later _ t i leads earlier above with ⟨shared, _⟩ | dead
        · left
          rw [logN]
          have kept := kept_of_noLoss noLoss (has.trans shared.symm)
          exact ((agree_take bound).mono kept).trans shared
        · exact .inr (dead.ext ext)
      · rw [logQ q self]
        exact .inl has
    · exact .inr (dead.ext ext)
  · intro q t' c L t i vote stand earlier above reached
    have low := (inv.voted q t' c vote).1
    rw [ext.frozen q t (by omega)] at reached
    exact (inv.ballot q t' c L t i vote stand earlier above reached).imp_right (Dead.ext ext)
  · intro t' t i leads earlier above
    exact (inv.later t' t i leads earlier above).imp_right (Dead.ext ext)

/-! All steps. -/

theorem Inv.step (inv : Inv τ voters s) (step : Step τ voters n s s') :
    Inv τ voters s' ∧ Ext s s' := by
  cases step with
  | raise t later => exact ⟨inv.raise later, ext_raise later⟩
  | stand => exact ⟨inv.stand n, inv.ext_stand n⟩
  | grant c L stood upToDate free => exact ⟨inv.grant stood upToDate free, ext_grant free⟩
  | elect stood won new => exact ⟨inv.elect stood won new, inv.ext_elect (inv.vacant_of_won won new)⟩
  | append e leads own current => exact ⟨inv.append leads own current, inv.ext_append own⟩
  | accept k leads bound noLoss => exact ⟨inv.accept leads bound noLoss, inv.ext_accept noLoss⟩

theorem Step.frame (step : Step τ voters n s s') (inv : Inv τ voters s) : Frame n s s' := by
  cases step with
  | raise t later =>
    exact ⟨fun q other => by simp [State.raise, other], fun _ _ => rfl, fun _ _ _ => rfl,
      fun _ _ _ here => here, fun _ _ _ _ => rfl⟩
  | stand =>
    exact ⟨fun q other => by simp [State.standFor, other], fun _ _ => rfl,
      fun q t other => put_ne_left _ _ _ _ other t, fun _ _ _ here => here, fun _ _ _ _ => rfl⟩
  | grant c L stood upToDate free =>
    exact ⟨fun _ _ => rfl, fun _ _ => rfl, fun q t other => put_ne_left _ _ _ _ other t,
      fun _ _ _ here => here, fun _ _ _ _ => rfl⟩
  | elect stood won new =>
    have vacant := inv.vacant_of_won won new
    refine ⟨fun _ _ => rfl, fun _ _ => rfl, fun _ _ _ => rfl, fun t q other here => ?_,
      fun t q other here => ?_⟩
    · by_cases same : t = s.term n
      · subst same
        have : n = q := by simpa [State.elect] using here
        exact absurd this.symm other
      · simpa [State.elect, same] using here
    · have same : t ≠ s.term n := by rintro rfl; exact absurd (vacant.symm.trans here) (by simp)
      simp [State.elect, same]
  | append e leads own current =>
    refine ⟨fun _ _ => rfl, fun q other => by simp [State.append, other], fun _ _ _ => rfl,
      fun _ _ _ here => here, fun t q other here => ?_⟩
    have same : t ≠ s.term n := by
      rintro rfl
      exact other (Option.some.inj (here.symm.trans leads))
    simp [State.append, same]
  | accept k leads bound noLoss =>
    exact ⟨fun _ _ => rfl, fun q other => by simp [State.accept, other], fun _ _ _ => rfl,
      fun _ _ _ here => here, fun _ _ _ _ => rfl⟩

variable (τ voters n) in
abbrev Moves : State ν ε → State ν ε → Prop := Relation.ReflTransGen (Step τ voters n)

theorem Inv.moves (inv : Inv τ voters s) (moves : Moves τ voters n s s') :
    Inv τ voters s' ∧ Ext s s' ∧ Frame n s s' := by
  induction moves with
  | refl => exact ⟨inv, .refl s, .refl n s⟩
  | tail _ last ih =>
    obtain ⟨inv', ext, frame⟩ := ih
    obtain ⟨inv'', ext'⟩ := inv'.step last
    exact ⟨inv'', ext.trans ext', frame.trans (last.frame inv') ext⟩

end Steps

end TermLog

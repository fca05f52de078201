import Kvgo.Lib.Majority

/-! A replicated log with elected leaders, one per term.

The state keeps, besides what every node has now, the history that the safety
argument needs: every vote, the log of each candidate when it stood, the log of
the leader of each term and how much of it each node acknowledged in that term. -/

namespace TermLog

/-! Lists that share their first entries. -/

section Agree

variable {ε : Type*} {i j : Nat} {L M N : List ε}

def Agree (i : Nat) (L M : List ε) : Prop := L.take i = M.take i ∧ i ≤ L.length ∧ i ≤ M.length

theorem Agree.refl (bound : i ≤ L.length) : Agree i L L := ⟨rfl, bound, bound⟩

theorem Agree.symm (same : Agree i L M) : Agree i M L := ⟨same.1.symm, same.2.2, same.2.1⟩

theorem Agree.trans (first : Agree i L M) (second : Agree i M N) : Agree i L N :=
  ⟨first.1.trans second.1, first.2.1, second.2.2⟩

theorem Agree.mono (same : Agree i L M) (less : j ≤ i) : Agree j L M := by
  refine ⟨?_, less.trans same.2.1, less.trans same.2.2⟩
  have := congrArg (List.take j) same.1
  simpa [List.take_take, Nat.min_eq_left less] using this

theorem Agree.right (same : Agree i L M) (longer : M <+: N) : Agree i L N := by
  obtain ⟨rest, rfl⟩ := longer
  refine ⟨?_, same.2.1, by simp; have := same.2.2; omega⟩
  rw [same.1, List.take_append_of_le_length same.2.2]

theorem Agree.get (same : Agree i L M) (inside : j < i) : L[j]? = M[j]? := by
  have := congrArg (fun l => l[j]?) same.1
  simpa [List.getElem?_take, inside] using this

theorem agree_zero : Agree 0 L M := ⟨by simp, by simp, by simp⟩

theorem agree_take (bound : i ≤ L.length) : Agree i (L.take i) L :=
  ⟨by simp, by simp [bound], bound⟩

theorem Agree.isPrefix (same : Agree i L M) (all : L.length = i) : L <+: M := by
  have := same.1
  rw [List.take_of_length_le all.le] at this
  exact this ▸ List.take_prefix i M

theorem agree_of_isPrefix (sub : L <+: M) : Agree L.length L M :=
  (Agree.refl le_rfl).right sub

theorem take_of_isPrefix (sub : L <+: M) (bound : i ≤ L.length) : M.take i = L.take i := by
  obtain ⟨rest, rfl⟩ := sub
  exact List.take_append_of_le_length bound

theorem slice_of_isPrefix (sub : L <+: M) (bound : i + j ≤ L.length) :
    (M.drop i).take j = (L.drop i).take j := by
  obtain ⟨rest, rfl⟩ := sub
  rw [List.drop_append_of_le_length (by omega),
    List.take_append_of_le_length (by rw [List.length_drop]; omega)]

end Agree

structure State (ν ε : Type*) where
  term : ν → Nat
  log : ν → List ε
  vote : ν → Nat → Option ν
  /-- The log with which a node stood as a candidate of a term. -/
  stand : Nat → ν → Option (List ε)
  leader : Nat → Option ν
  /-- The log of the leader of a term, as far as it got in that term. -/
  llog : Nat → List ε
  /-- The length of that log when the leader was elected. -/
  base : Nat → Nat
  /-- How much of that log a node has taken over in the term. -/
  acked : ν → Nat → Nat

def State.init (ν ε : Type*) : State ν ε where
  term _ := 0
  log _ := []
  vote _ _ := none
  stand _ _ := none
  leader _ := none
  llog _ := []
  base _ := 0
  acked _ _ := 0

section Invariant

variable {ν ε : Type*} (τ : ε → Nat) (voters : List ν)

def lastTerm (L : List ε) : Nat := (L.getLast?.map τ).getD 0

def UpToDate (L M : List ε) : Prop :=
  lastTerm τ M < lastTerm τ L ∨ lastTerm τ L = lastTerm τ M ∧ M.length ≤ L.length

/-- Too many voters have left the term for its prefix of length `i` to be acknowledged
by a majority any more. -/
def Dead (s : State ν ε) (t i : Nat) : Prop :=
  Majority voters (fun q => t < s.term q ∧ s.acked q t < i)

def LogOK (s : State ν ε) (L : List ε) : Prop :=
  ∀ i e, L[i]? = some e → Agree (i + 1) L (s.llog (τ e))

structure Inv (s : State ν ε) : Prop where
  stood : ∀ t n L, s.stand t n = some L →
    t ≤ s.term n ∧ 0 < t ∧ s.vote n t = some n ∧ (∀ e ∈ L, τ e < t) ∧ LogOK τ s L
  voted : ∀ n t c, s.vote n t = some c → t ≤ s.term n ∧ ∃ L, s.stand t c = some L
  led : ∀ t n, s.leader t = some n → ∃ L, s.stand t n = some L ∧ Agree (s.base t) L (s.llog t) ∧
    L.length = s.base t ∧ Majority voters (fun q => s.vote q t = some n)
  vacant : ∀ t, s.leader t = none → s.llog t = [] ∧ s.base t = 0
  own : ∀ t i e, (s.llog t)[i]? = some e → (s.base t ≤ i → τ e = t) ∧ (i < s.base t → τ e < t)
  leaderLog : ∀ t, LogOK τ s (s.llog t)
  nodeLog : ∀ n, LogOK τ s (s.log n) ∧ ∀ e ∈ s.log n, τ e ≤ s.term n
  ackedBound : ∀ n t, s.acked n t ≤ (s.llog t).length
  ackedTerm : ∀ n t, 0 < s.acked n t → t ≤ s.term n
  now : ∀ n, Agree (s.acked n (s.term n)) (s.log n) (s.llog (s.term n))
  past : ∀ n t i, t < s.term n → s.base t < i → i ≤ s.acked n t →
    Agree i (s.log n) (s.llog t) ∨ Dead voters s t i
  ballot : ∀ q t' c L t i, s.vote q t' = some c → s.stand t' c = some L → t < t' → s.base t < i →
    i ≤ s.acked q t → Agree i L (s.llog t) ∨ Dead voters s t i
  later : ∀ t' t i, s.leader t' ≠ none → t < t' → s.base t < i →
    (Agree i (s.llog t') (s.llog t) ∧ i ≤ s.base t') ∨ Dead voters s t i

theorem Inv.init : Inv τ voters (State.init ν ε) := by
  have none : LogOK τ (State.init ν ε) [] := by intro i e here; simp at here
  constructor <;> intros <;> first | exact none | exact agree_zero | simp_all [State.init]

structure Ext (s s' : State ν ε) : Prop where
  term : ∀ n, s.term n ≤ s'.term n
  vote : ∀ n t c, s.vote n t = some c → s'.vote n t = some c
  stand : ∀ t n L, s.stand t n = some L → s'.stand t n = some L
  leader : ∀ t n, s.leader t = some n → s'.leader t = some n
  llog : ∀ t, s.llog t <+: s'.llog t
  base : ∀ t, s.leader t ≠ none → s'.base t = s.base t
  acked : ∀ n t, s.acked n t ≤ s'.acked n t
  frozen : ∀ n t, t < s.term n → s'.acked n t = s.acked n t

variable {τ voters} {s s' : State ν ε}

theorem LogOK.ext (ext : Ext s s') {L : List ε} (ok : LogOK τ s L) : LogOK τ s' L :=
  fun i e here => (ok i e here).right (ext.llog _)

theorem Dead.ext (ext : Ext s s') {t i : Nat} (dead : Dead voters s t i) : Dead voters s' t i :=
  dead.mono (fun q _ gone => ⟨gone.1.trans_le (ext.term q), by rw [ext.frozen q t gone.1]; exact gone.2⟩)

theorem Ext.refl (s : State ν ε) : Ext s s :=
  ⟨fun _ => le_rfl, fun _ _ _ h => h, fun _ _ _ h => h, fun _ _ h => h, fun _ => List.prefix_refl _,
    fun _ _ => rfl, fun _ _ => le_rfl, fun _ _ _ => rfl⟩

theorem Ext.trans {s'' : State ν ε} (first : Ext s s') (second : Ext s' s'') : Ext s s'' where
  term n := (first.term n).trans (second.term n)
  vote n t c here := second.vote n t c (first.vote n t c here)
  stand t n L here := second.stand t n L (first.stand t n L here)
  leader t n here := second.leader t n (first.leader t n here)
  llog t := (first.llog t).trans (second.llog t)
  base t here := by
    obtain ⟨n, found⟩ := Option.ne_none_iff_exists'.mp here
    rw [second.base t (by simp [first.leader t n found]), first.base t here]
  acked n t := (first.acked n t).trans (second.acked n t)
  frozen n t gone := by
    rw [second.frozen n t (gone.trans_le (first.term n)), first.frozen n t gone]

/-- What the acts of node `n` leave alone: the other nodes, and the logs of the terms
that others lead. -/
structure Frame (n : ν) (s s' : State ν ε) : Prop where
  term : ∀ q, q ≠ n → s'.term q = s.term q
  log : ∀ q, q ≠ n → s'.log q = s.log q
  vote : ∀ q t, q ≠ n → s'.vote q t = s.vote q t
  leader : ∀ t q, q ≠ n → s'.leader t = some q → s.leader t = some q
  llog : ∀ t q, q ≠ n → s.leader t = some q → s'.llog t = s.llog t

theorem Frame.refl (n : ν) (s : State ν ε) : Frame n s s :=
  ⟨fun _ _ => rfl, fun _ _ => rfl, fun _ _ _ => rfl, fun _ _ _ here => here, fun _ _ _ _ => rfl⟩

theorem Frame.trans {n : ν} {s'' : State ν ε} (first : Frame n s s') (second : Frame n s' s'') (ext : Ext s s') :
    Frame n s s'' where
  term q other := (second.term q other).trans (first.term q other)
  log q other := (second.log q other).trans (first.log q other)
  vote q t other := (second.vote q t other).trans (first.vote q t other)
  leader t q other here := first.leader t q other (second.leader t q other here)
  llog t q other here := (second.llog t q other (ext.leader t q here)).trans (first.llog t q other here)

/-! What the invariant says about lists. -/

theorem Inv.term_le (inv : Inv τ voters s) {L : List ε} (ok : LogOK τ s L) {i j : Nat} {d e : ε}
    (first : L[j]? = some d) (second : L[i]? = some e) (order : j ≤ i) : τ d ≤ τ e := by
  have same := (ok i e second).get (show j < i + 1 by omega)
  rw [first] at same
  have owned := inv.own (τ e) j d same.symm
  rcases Nat.lt_or_ge j (s.base (τ e)) with below | above
  · exact (owned.2 below).le
  · exact (owned.1 above).le

theorem LogOK.match {L M : List ε} (ok : LogOK τ s L) (ok' : LogOK τ s M) {i : Nat} {d e : ε}
    (first : L[i]? = some d) (second : M[i]? = some e) (same : τ d = τ e) : Agree (i + 1) L M :=
  (ok i d first).trans (same ▸ (ok' i e second).symm)

theorem LogOK.of_agree {L M : List ε} (ok : LogOK τ s M) (same : Agree L.length L M) :
    LogOK τ s L := by
  intro i e here
  have inside := (List.getElem?_eq_some_iff.mp here).1
  have there := (same.get inside).symm.trans here
  exact (same.mono (show i + 1 ≤ L.length by omega)).trans (ok i e there)

theorem LogOK.take {L : List ε} (ok : LogOK τ s L) (k : Nat) : LogOK τ s (L.take k) :=
  ok.of_agree (agree_of_isPrefix (List.take_prefix k L))

theorem Inv.leader_pos (inv : Inv τ voters s) {t : Nat} (leads : s.leader t ≠ none) : 0 < t := by
  obtain ⟨n, found⟩ := Option.ne_none_iff_exists'.mp leads
  obtain ⟨L, stood, _⟩ := inv.led t n found
  exact (inv.stood t n L stood).2.1

theorem Inv.leads_of_nonempty (inv : Inv τ voters s) {t i : Nat} {e : ε}
    (here : (s.llog t)[i]? = some e) : s.leader t ≠ none := by
  intro none
  simp [(inv.vacant t none).1] at here

theorem Inv.base_le (inv : Inv τ voters s) (t : Nat) : s.base t ≤ (s.llog t).length := by
  cases found : s.leader t with
  | none => simp [inv.vacant t found]
  | some n =>
    obtain ⟨L, _, same, _⟩ := inv.led t n found
    exact same.2.2

theorem Inv.own_last (inv : Inv τ voters s) {t i : Nat} (above : s.base t < i)
    (bound : i ≤ (s.llog t).length) : ∃ e, (s.llog t)[i - 1]? = some e ∧ τ e = t := by
  have inside : i - 1 < (s.llog t).length := by omega
  refine ⟨(s.llog t)[i - 1], List.getElem?_eq_getElem inside, ?_⟩
  exact (inv.own t (i - 1) _ (List.getElem?_eq_getElem inside)).1 (by omega)

theorem lastTerm_eq {L : List ε} {e : ε} (last : L[L.length - 1]? = some e) : lastTerm τ L = τ e := by
  simp [lastTerm, List.getLast?_eq_getElem?, last]

theorem lastTerm_pos {L : List ε} (positive : 0 < lastTerm τ L) :
    ∃ e, L[L.length - 1]? = some e ∧ τ e = lastTerm τ L := by
  cases L with
  | nil => simp [lastTerm] at positive
  | cons d L =>
    refine ⟨(d :: L)[L.length], by simp, ?_⟩
    exact (lastTerm_eq (by simp)).symm

/-- The election restriction: a log that is up to date for a voter holds what the voter
acknowledged of an earlier term, unless that can no longer be chosen. -/
theorem Inv.upToDate_agree (inv : Inv τ voters s) {L M : List ε} (okL : LogOK τ s L)
    (okM : LogOK τ s M) (upToDate : UpToDate τ L M) {t i : Nat} (above : s.base t < i)
    (has : Agree i M (s.llog t)) : Agree i L (s.llog t) ∨ Dead voters s t i := by
  obtain ⟨e, here, term⟩ := inv.own_last above has.2.2
  have there : M[i - 1]? = some e := (has.get (by omega)).trans here
  have nonempty : M ≠ [] := by rintro rfl; simp at there
  obtain ⟨d, last⟩ : ∃ d, M[M.length - 1]? = some d :=
    ⟨_, List.getElem?_eq_getElem (by have := List.length_pos_of_ne_nil nonempty; omega)⟩
  have lowM : t ≤ lastTerm τ M := by
    rw [lastTerm_eq last, ← term]
    exact inv.term_le okM there last (by have := has.2.1; omega)
  have positive : 0 < t := inv.leader_pos (inv.leads_of_nonempty here)
  have lowL : t ≤ lastTerm τ L := by
    rcases upToDate with more | ⟨same, _⟩ <;> omega
  obtain ⟨f, lastL, termL⟩ := lastTerm_pos (τ := τ) (L := L) (by omega)
  have whole := okL _ f lastL
  have length : L.length - 1 + 1 = L.length := by
    have := (List.getElem?_eq_some_iff.mp lastL).1; omega
  rw [length, termL] at whole
  rcases lowL.eq_or_lt with same | more
  · -- the candidate's log ends in the same term: it is a longer part of the same leader's log
    rw [← same] at whole
    have longer : M.length ≤ L.length := by
      rcases upToDate with more | ⟨_, longer⟩
      · omega
      · exact longer
    exact .inl (whole.mono (has.2.1.trans longer))
  · -- it ends in a later term, whose leader started out with the prefix
    have leads : s.leader (lastTerm τ L) ≠ none := by
      have := (whole.get (show L.length - 1 < L.length by omega)).symm.trans lastL
      exact inv.leads_of_nonempty this
    rcases inv.later _ t i leads more above with ⟨shared, below⟩ | dead
    · left
      have reach : i ≤ L.length := by
        by_contra short
        have inside := (whole.get (show L.length - 1 < L.length by omega)).symm.trans lastL
        have := (inv.own _ _ f inside).2 (by omega)
        omega
      exact (whole.mono reach).trans shared
    · exact .inr dead

/-- Raising terms, standing and voting keep the invariant, if each new vote is for a
log that holds what its voter acknowledged. -/
theorem Inv.politics (inv : Inv τ voters s) (ext : Ext s s') (llog : s'.llog = s.llog)
    (leader : s'.leader = s.leader) (base : s'.base = s.base) (acked : s'.acked = s.acked)
    (log : s'.log = s.log)
    (stood : ∀ t n L, s'.stand t n = some L → s.stand t n = some L ∨
      t ≤ s'.term n ∧ 0 < t ∧ s'.vote n t = some n ∧ (∀ e ∈ L, τ e < t) ∧ LogOK τ s L)
    (voted : ∀ n t c, s'.vote n t = some c → s.vote n t = some c ∨
      t ≤ s'.term n ∧ ∃ L, s'.stand t c = some L ∧ ∀ t0 i, t0 < t → s.base t0 < i →
        i ≤ s.acked n t0 → Agree i L (s.llog t0) ∨ Dead voters s' t0 i) : Inv τ voters s' where
  stood t n L here := by
    rcases stood t n L here with old | ⟨low, positive, vote, terms, ok⟩
    · obtain ⟨low, positive, vote, terms, ok⟩ := inv.stood t n L old
      exact ⟨low.trans (ext.term n), positive, ext.vote n t n vote, terms, ok.ext ext⟩
    · exact ⟨low, positive, vote, terms, ok.ext ext⟩
  voted n t c here := by
    rcases voted n t c here with old | ⟨low, L, stood, _⟩
    · obtain ⟨low, L, stood⟩ := inv.voted n t c old
      exact ⟨low.trans (ext.term n), L, ext.stand t c L stood⟩
    · exact ⟨low, L, stood⟩
  led t n here := by
    rw [leader] at here
    obtain ⟨L, stood, same, length, most⟩ := inv.led t n here
    rw [base, llog]
    exact ⟨L, ext.stand t n L stood, same, length, most.mono (fun q _ => ext.vote q t n)⟩
  vacant t here := by rw [llog, base]; exact inv.vacant t (leader ▸ here)
  own := by rw [llog, base]; exact inv.own
  leaderLog t := by rw [llog]; exact (inv.leaderLog t).ext ext
  nodeLog n := by
    rw [log]
    exact ⟨(inv.nodeLog n).1.ext ext, fun e inside => ((inv.nodeLog n).2 e inside).trans (ext.term n)⟩
  ackedBound := by rw [acked, llog]; exact inv.ackedBound
  ackedTerm n t positive := (inv.ackedTerm n t (acked ▸ positive)).trans (ext.term n)
  now n := by
    rw [acked, log, llog]
    rcases (ext.term n).eq_or_lt with same | later
    · rw [← same]; exact inv.now n
    · have none : s.acked n (s'.term n) = 0 := by
        by_contra some
        have := inv.ackedTerm n _ (Nat.pos_of_ne_zero some)
        omega
      rw [none]; exact agree_zero
  past n t i earlier above bound := by
    rw [acked] at bound
    rw [base] at above
    rw [log, llog]
    rcases Nat.lt_trichotomy t (s.term n) with before | same | after
    · exact (inv.past n t i before above bound).imp_right (Dead.ext ext)
    · subst same
      exact .inl ((inv.now n).mono bound)
    · have := inv.ackedTerm n t (by omega)
      omega
  ballot q t' c L t i vote stand earlier above bound := by
    rw [acked] at bound
    rw [base] at above
    rw [llog]
    rcases voted q t' c vote with old | ⟨_, M, stood, good⟩
    · obtain ⟨_, M, stood⟩ := inv.voted q t' c old
      obtain rfl : M = L := Option.some.inj ((ext.stand t' c M stood).symm.trans stand)
      exact (inv.ballot q t' c M t i old stood earlier above bound).imp_right (Dead.ext ext)
    · obtain rfl : M = L := Option.some.inj (stood.symm.trans stand)
      exact good t i earlier above bound
  later t' t i leads earlier above := by
    rw [leader] at leads
    rw [base] at above
    rw [llog, base]
    exact (inv.later t' t i leads earlier above).imp_right (Dead.ext ext)

theorem Inv.vacant_of_won (inv : Inv τ voters s) {n : ν}
    (won : Majority voters (fun q => s.vote q (s.term n) = some n))
    (new : s.leader (s.term n) ≠ some n) : s.leader (s.term n) = none := by
  by_contra found
  obtain ⟨x, leads⟩ := Option.ne_none_iff_exists'.mp found
  obtain ⟨_, _, _, _, most⟩ := inv.led _ x leads
  obtain ⟨q, _, forX, forN⟩ := most.inter won
  exact new (leads.trans (forX.symm.trans forN))

theorem Inv.acked_vacant (inv : Inv τ voters s) {t : Nat} (vacant : s.leader t = none) (q : ν) :
    s.acked q t = 0 := by
  have bound := inv.ackedBound q t
  simpa [(inv.vacant _ vacant).1] using bound

/-- What an earlier leader appended is in the log of the winner, or a majority never acknowledged it. -/
theorem Inv.winner_has (inv : Inv τ voters s) {n : ν} (stood : s.stand (s.term n) n = some (s.log n))
    (won : Majority voters (fun q => s.vote q (s.term n) = some n)) {t i : Nat} (earlier : t < s.term n)
    (above : s.base t < i) : Agree i (s.log n) (s.llog t) ∨ Dead voters s t i := by
  by_cases reached : ∃ q, s.vote q (s.term n) = some n ∧ i ≤ s.acked q t
  · obtain ⟨q, vote, bound⟩ := reached
    exact inv.ballot q _ n _ t i vote stood earlier above bound
  · push Not at reached
    exact .inr (won.mono (fun q _ vote => ⟨earlier.trans_le (inv.voted q _ n vote).1, reached q vote⟩))

theorem Inv.dead_of_vacant (inv : Inv τ voters s) {t t' i : Nat} (vacant : s.leader t = none)
    (leads : s.leader t' ≠ none) (earlier : t < t') (positive : 0 < i) : Dead voters s t i := by
  obtain ⟨empty, base⟩ := inv.vacant t vacant
  rcases inv.later t' t i leads earlier (by omega) with ⟨has, -⟩ | dead
  · have inside := has.2.2
    rw [empty, List.length_nil] at inside
    omega
  · exact dead

theorem LogOK.snoc {e : ε} {L : List ε} (ext : Ext s s') (ok : LogOK τ s L)
    (put : s'.llog (τ e) = L ++ [e]) : LogOK τ s' (L ++ [e]) := by
  intro i d here
  rcases Nat.lt_or_ge i L.length with inside | outside
  · rw [List.getElem?_append_left inside] at here
    exact (((ok i d here).right (ext.llog _)).symm.right (List.prefix_append L [e])).symm
  · have : i = L.length := by
      have := (List.getElem?_eq_some_iff.mp here).1
      simp at this
      omega
    subst this
    obtain rfl : e = d := by simpa using here
    rw [put]
    exact Agree.refl (by simp)

/-! Safety. -/

/-- A majority has taken over the leader's log up to an entry of its own term. -/
structure Chosen (voters : List ν) (s : State ν ε) (t i : Nat) : Prop where
  own : s.base t < i
  bound : i ≤ (s.llog t).length
  acked : Majority voters (fun q => i ≤ s.acked q t)

def Safe (voters : List ν) (s : State ν ε) (t : Nat) (L : List ε) : Prop :=
  L = [] ∨ ∃ t' i, t' ≤ t ∧ Chosen voters s t' i ∧ L.length ≤ i ∧ L <+: s.llog t'

theorem Chosen.alive {t i : Nat} (chosen : Chosen voters s t i) : ¬Dead voters s t i := by
  intro dead
  obtain ⟨q, _, reached, _, missed⟩ := chosen.acked.inter dead
  omega

theorem Inv.chosen_leads (inv : Inv τ voters s) {t i : Nat} (chosen : Chosen voters s t i) :
    s.leader t ≠ none := by
  intro none
  have := chosen.bound
  have := chosen.own
  simp only [(inv.vacant t none).1, List.length_nil] at *
  omega

theorem Inv.chosen_ext (inv : Inv τ voters s) (ext : Ext s s') {t i : Nat}
    (chosen : Chosen voters s t i) : Chosen voters s' t i where
  own := by rw [ext.base t (inv.chosen_leads chosen)]; exact chosen.own
  bound := chosen.bound.trans (ext.llog t).length_le
  acked := chosen.acked.mono (fun q _ reached => reached.trans (ext.acked q t))

theorem Inv.safe_ext (inv : Inv τ voters s) (ext : Ext s s') {t : Nat} {L : List ε}
    (safe : Safe voters s t L) : Safe voters s' t L := by
  rcases safe with none | ⟨t', i, low, chosen, bound, sub⟩
  · exact .inl none
  · exact .inr ⟨t', i, low, inv.chosen_ext ext chosen, bound, sub.trans (ext.llog t')⟩

theorem Safe.mono {t t' : Nat} {L : List ε} (safe : Safe voters s t L) (later : t ≤ t') :
    Safe voters s t' L :=
  safe.imp_right (fun ⟨u, i, low, rest⟩ => ⟨u, i, low.trans later, rest⟩)

theorem Safe.sub {t : Nat} {L M : List ε} (safe : Safe voters s t M) (sub : L <+: M) :
    Safe voters s t L := by
  rcases safe with rfl | ⟨t', i, low, chosen, bound, inside⟩
  · exact .inl (List.prefix_nil.mp sub)
  · exact .inr ⟨t', i, low, chosen, sub.length_le.trans bound, sub.trans inside⟩

/-- Leader completeness: what is chosen in a term is in the log with which each later
leader was elected. -/
theorem Inv.chosen_later (inv : Inv τ voters s) {t t' i : Nat} (chosen : Chosen voters s t i)
    (leads : s.leader t' ≠ none) (later : t < t') :
    Agree i (s.llog t') (s.llog t) ∧ i ≤ s.base t' :=
  (inv.later t' t i leads later chosen.own).resolve_right chosen.alive

theorem Inv.safe_llog (inv : Inv τ voters s) {t t' : Nat} {L : List ε} (safe : Safe voters s t L)
    (leads : s.leader t' ≠ none) (order : t ≤ t') : L <+: s.llog t' := by
  rcases safe with rfl | ⟨u, i, low, chosen, bound, sub⟩
  · exact List.nil_prefix
  rcases (low.trans order).eq_or_lt with rfl | later
  · exact sub
  · have shared := (inv.chosen_later chosen leads later).1
    exact ((agree_of_isPrefix sub).trans (shared.mono bound).symm).isPrefix rfl

theorem Inv.safe_base (inv : Inv τ voters s) {t t' : Nat} {L : List ε} (safe : Safe voters s t L)
    (leads : s.leader t' ≠ none) (later : t < t') : L.length ≤ s.base t' := by
  rcases safe with rfl | ⟨u, i, low, chosen, bound, _⟩
  · exact Nat.zero_le _
  · exact bound.trans (inv.chosen_later chosen leads (low.trans_lt later)).2

theorem Inv.safe_comparable (inv : Inv τ voters s) {t t' : Nat} {L M : List ε}
    (safe : Safe voters s t L) (safe' : Safe voters s t' M) : L <+: M ∨ M <+: L := by
  have ordered : ∀ {L M : List ε} {t t' i : Nat}, t ≤ t' → Safe voters s t L →
      Chosen voters s t' i → M <+: s.llog t' → L <+: M ∨ M <+: L :=
    fun order safe chosen sub =>
      List.prefix_or_prefix_of_prefix (inv.safe_llog safe (inv.chosen_leads chosen) order) sub
  rcases safe with rfl | ⟨u, i, _, chosen, bound, sub⟩
  · exact .inl List.nil_prefix
  rcases safe' with rfl | ⟨u', i', _, chosen', bound', sub'⟩
  · exact .inr List.nil_prefix
  rcases Nat.le_total u u' with order | order
  · exact ordered order (.inr ⟨u, i, le_rfl, chosen, bound, sub⟩) chosen' sub'
  · exact (ordered order (.inr ⟨u', i', le_rfl, chosen', bound', sub'⟩) chosen sub).symm

end Invariant

end TermLog

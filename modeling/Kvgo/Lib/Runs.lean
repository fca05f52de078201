import Mathlib

/-! Runs of a total step function, and computations that may fail.

A run is the left fold of `step` over a list of events. `Along ok` says that each
event of the run meets `ok` in the state it finds; an invariant needs to be kept
only by such steps. -/

namespace Outcome

universe u

variable {ε : Type*} {α β σ : Type u}

theorem bind_eq_ok {x : Except ε α} {f : α → Except ε β} {b : β} :
    (x >>= f) = .ok b ↔ ∃ a, x = .ok a ∧ f a = .ok b := by
  cases x with
  | error e => simp [bind, Except.bind]
  | ok a => simp [bind, Except.bind]

/-- A fold that succeeds takes each element through a step that succeeds: what holds
of the start and is kept by such steps holds of the end, and the steps compose. -/
theorem foldlM_rel {f : σ → α → Except ε σ} {xs : List α} (P : σ → Prop) (R : σ → σ → Prop)
    (step : ∀ s x s', x ∈ xs → P s → f s x = .ok s' → P s' ∧ Relation.ReflTransGen R s s')
    {s s' : σ} (start : P s) (ok : xs.foldlM f s = .ok s') :
    P s' ∧ Relation.ReflTransGen R s s' := by
  induction xs generalizing s with
  | nil =>
    cases ok
    exact ⟨start, .refl⟩
  | cons x xs ih =>
    rw [List.foldlM_cons, bind_eq_ok] at ok
    obtain ⟨mid, first, rest⟩ := ok
    obtain ⟨kept, reached⟩ := step s x mid (by simp) start first
    obtain ⟨last, further⟩ := ih (fun s x s' inside => step s x s' (by simp [inside])) kept rest
    exact ⟨last, reached.trans further⟩

end Outcome

namespace Runs

variable {σ ε : Type*} (step : σ → ε → σ)

def exec (s : σ) (events : List ε) : σ := events.foldl step s

@[simp] theorem exec_nil (s : σ) : exec step s [] = s := rfl

@[simp] theorem exec_cons (s : σ) (e : ε) (events : List ε) :
    exec step s (e :: events) = exec step (step s e) events := rfl

theorem exec_append (s : σ) (before after : List ε) :
    exec step s (before ++ after) = exec step (exec step s before) after :=
  List.foldl_append

def Along (ok : σ → ε → Prop) : σ → List ε → Prop
  | _, [] => True
  | s, e :: events => ok s e ∧ Along ok (step s e) events

instance decidableAlong (ok : σ → ε → Prop) [∀ s e, Decidable (ok s e)] :
    ∀ (s : σ) (events : List ε), Decidable (Along step ok s events)
  | _, [] => inferInstanceAs (Decidable True)
  | s, e :: events =>
    have := decidableAlong ok (step s e) events
    inferInstanceAs (Decidable (ok s e ∧ Along step ok (step s e) events))

theorem along_append (ok : σ → ε → Prop) (s : σ) (before after : List ε) :
    Along step ok s (before ++ after) ↔
      Along step ok s before ∧ Along step ok (exec step s before) after := by
  induction before generalizing s with
  | nil => simp [Along]
  | cons e before ih => simp [Along, ih, and_assoc]

theorem along_and {ok : σ → ε → Prop} {allowed : ε → Prop} {s : σ} {events : List ε}
    (each : ∀ e ∈ events, allowed e) (good : Along step ok s events) :
    Along step (fun s e => allowed e ∧ ok s e) s events := by
  induction events generalizing s with
  | nil => trivial
  | cons e events ih =>
    exact ⟨⟨each e (by simp), good.1⟩, ih (fun e inside => each e (by simp [inside])) good.2⟩

theorem along_both {first second : σ → ε → Prop} {s : σ} {events : List ε} (one : Along step first s events)
    (two : Along step second s events) : Along step (fun s e => first s e ∧ second s e) s events := by
  induction events generalizing s with
  | nil => trivial
  | cons e events ih => exact ⟨⟨one.1, two.1⟩, ih one.2 two.2⟩

theorem along_of_forall {allowed : ε → Prop} {s : σ} {events : List ε} (each : ∀ e ∈ events, allowed e) :
    Along step (fun _ e => allowed e) s events := by
  induction events generalizing s with
  | nil => trivial
  | cons e events ih => exact ⟨each e (by simp), ih (fun e inside => each e (by simp [inside]))⟩

theorem invariant {ok : σ → ε → Prop} (Inv : σ → Prop)
    (keep : ∀ s e, Inv s → ok s e → Inv (step s e)) {s : σ} {events : List ε}
    (start : Inv s) (good : Along step ok s events) : Inv (exec step s events) := by
  induction events generalizing s with
  | nil => exact start
  | cons e events ih => exact ih (keep s e start good.1) good.2

theorem invariant_take {ok : σ → ε → Prop} (Inv : σ → Prop)
    (keep : ∀ s e, Inv s → ok s e → Inv (step s e)) {s : σ} {events : List ε}
    (start : Inv s) (good : Along step ok s events) (moment : Nat) :
    Inv (exec step s (events.take moment)) := by
  rw [← List.take_append_drop moment events, along_append] at good
  exact invariant step Inv keep start good.1

theorem invariant_past {ok : σ → ε → Prop} (Inv : List ε → σ → Prop) {s : σ}
    (keep : ∀ past e, Inv past (exec step s past) → ok (exec step s past) e →
      Inv (past ++ [e]) (step (exec step s past) e))
    {events : List ε} (start : Inv [] s) (good : Along step ok s events) : Inv events (exec step s events) := by
  induction events using List.reverseRecOn with
  | nil => exact start
  | append_singleton past e ih =>
    rw [along_append] at good
    rw [exec_append]
    exact keep past e (ih good.1) good.2.1

theorem along_at {ok : σ → ε → Prop} {s : σ} {events : List ε} (good : Along step ok s events) {i : Nat} {e : ε}
    (here : events[i]? = some e) : ok (exec step s (events.take i)) e := by
  induction events generalizing s i with
  | nil => simp at here
  | cons first events ih =>
    cases i with
    | zero =>
      obtain rfl := Option.some.inj here
      exact good.1
    | succ i => exact ih good.2 here

theorem exec_take_succ {s : σ} {events : List ε} {i : Nat} {e : ε} (here : events[i]? = some e) :
    exec step s (events.take (i + 1)) = step (exec step s (events.take i)) e := by
  rw [List.take_add_one, here, exec_append]
  rfl

theorem exec_take_end {s : σ} {events : List ε} {i : Nat} (done : events[i]? = none) :
    exec step s (events.take (i + 1)) = exec step s (events.take i) := by
  rw [List.take_add_one, done]
  simp

end Runs

import Mathlib.Logic.Function.Basic
/-!
# Machines: runs, reachable states, invariants

A `Machine` is a program taken one atomic step at a time.  The action names the thread that moves and fixes every
choice the code leaves to its environment (which waiter a notification wakes, which stored value a load returns,
whether a thread could be created), so one step is a function and a run is a list of actions.  Nothing here names a
program: the modules after this one instantiate it.

* `Reachable.invariant`: what the first state satisfies and every step keeps holds in every reachable state;
  `runFrom_invariant`: from a state that satisfies it, in every state a run gets to.
* `exists_run_of_measure`: a run that some step always brings nearer to its end gets there; `length_le_of_measure`: a
  run that each step brings nearer to its end is no longer than the way it has come, and `countP_le_of_measure` counts
  the steps of one party among those of others.
* `only`: the same machine, taking only the steps a condition allows; what holds of "every run whose steps all meet the
  condition" holds of the reachable states of `only`.
* `withHistory`: the same machine, with a record of its steps that none of them reads; what has happened before a state
  is said of the record it is reached with.
* `Reachable.map`: a state map that turns each step into a step or into nothing carries reachability along;
  `Reachable.simulated`: so does a relation between the states of two machines.
-/
namespace ThreadMessaging

/-- A program taken one atomic step at a time; `none` is an action that is not enabled. -/
structure Machine (σ α : Type) where
  init : σ
  step : σ → α → Option σ

namespace Machine

variable {σ τ α β η : Type}

def runFrom (M : Machine σ α) : σ → List α → Option σ
  | s, []      => some s
  | s, a :: as => (M.step s a).bind (fun t => M.runFrom t as)

/-- **The states the machine can be in**, under any order of steps. -/
inductive Reachable (M : Machine σ α) : σ → Prop
  | init : M.Reachable M.init
  | step {s t : σ} (a : α) : M.Reachable s → M.step s a = some t → M.Reachable t

theorem runFrom_cons (M : Machine σ α) (s : σ) (a : α) (as : List α) :
    M.runFrom s (a :: as) = (M.step s a).bind (fun t => M.runFrom t as) := rfl

/-- **A run from a reachable state ends in a reachable state.** -/
theorem Reachable.runFrom {M : Machine σ α} : ∀ {s t : σ} (as : List α), M.Reachable s →
    M.runFrom s as = some t → M.Reachable t
  | s, t, [], hs, h => by
    obtain rfl : s = t := by simpa [Machine.runFrom] using h
    exact hs
  | s, t, a :: as, hs, h => by
    rw [runFrom_cons, Option.bind_eq_some_iff] at h
    obtain ⟨u, hu, hrest⟩ := h
    exact Reachable.runFrom as (.step a hs hu) hrest

theorem reachable_of_run {M : Machine σ α} {t : σ} (as : List α) (h : M.runFrom M.init as = some t) :
    M.Reachable t :=
  Reachable.runFrom as .init h

/-- **The invariant rule.** -/
theorem Reachable.invariant {M : Machine σ α} {I : σ → Prop} (hinit : I M.init)
    (hstep : ∀ s a t, I s → M.step s a = some t → I t) {s : σ} (h : M.Reachable s) : I s := by
  induction h with
  | init => exact hinit
  | step a _ hst ih => exact hstep _ a _ ih hst

/-- **The invariant rule from any state on.** -/
theorem runFrom_invariant {M : Machine σ α} {I : σ → Prop} (hstep : ∀ s a t, I s → M.step s a = some t → I t) :
    ∀ {s t : σ} (as : List α), I s → M.runFrom s as = some t → I t
  | s, t, [], hs, h => by
    obtain rfl : s = t := by simpa [Machine.runFrom] using h
    exact hs
  | s, t, a :: as, hs, h => by
    rw [runFrom_cons, Option.bind_eq_some_iff] at h
    obtain ⟨u, hu, hrest⟩ := h
    exact runFrom_invariant hstep as (hstep s a u hs hu) hrest

/-- The invariant rule, with an invariant already known of the states stepped from. -/
theorem Reachable.invariant_of {M : Machine σ α} {I J : σ → Prop} (hJ : ∀ s, M.Reachable s → J s)
    (hinit : I M.init) (hstep : ∀ s a t, J s → I s → M.step s a = some t → I t) {s : σ}
    (h : M.Reachable s) : I s := by
  induction h with
  | init => exact hinit
  | step a hr hst ih => exact hstep _ a _ (hJ _ hr) ih hst

/-- **The progress rule**: where every state that is not yet there has a step that keeps `P` and comes down by a
measure, some run gets there. -/
theorem exists_run_of_measure {M : Machine σ α} {P Q : σ → Prop} (μ : σ → Nat)
    (hnext : ∀ s, P s → ¬ Q s → ∃ a t, M.step s a = some t ∧ P t ∧ μ t < μ s) {s : σ} (hs : P s) :
    ∃ as t, M.runFrom s as = some t ∧ Q t := by
  induction hn : μ s using Nat.strongRecOn generalizing s with
  | ind n ih =>
    by_cases hQ : Q s
    · exact ⟨[], s, rfl, hQ⟩
    · obtain ⟨a, t, hst, ht, hlt⟩ := hnext s hs hQ
      obtain ⟨as, u, hrun, hu⟩ := ih (μ t) (hn ▸ hlt) ht rfl
      refine ⟨a :: as, u, ?_, hu⟩
      rw [runFrom_cons, hst]
      exact hrun

/-- **The accounting rule**: where every step keeps `P`, a step that is one of `own` comes down by a measure, any other
does not go up, and one of `early` goes up by less than `n`, a run has at most so many of `own` as it comes down, and
`n` more for each of `early`. -/
theorem countP_le_of_measure {M : Machine σ α} {P : σ → Prop} (μ : σ → Nat) (own early : α → Bool) (n : Nat)
    (hstep : ∀ s a t, P s → M.step s a = some t → P t ∧ (own a).toNat + μ t ≤ n * (early a).toNat + μ s) :
    ∀ {s t : σ} (as : List α), P s → M.runFrom s as = some t →
      P t ∧ as.countP own + μ t ≤ n * as.countP early + μ s
  | s, t, [], hs, h => by
    obtain rfl : s = t := by simpa [Machine.runFrom] using h
    exact ⟨hs, by simp⟩
  | s, t, a :: as, hs, h => by
    rw [runFrom_cons, Option.bind_eq_some_iff] at h
    obtain ⟨u, hu, hrest⟩ := h
    obtain ⟨hPu, hle⟩ := hstep s a u hs hu
    obtain ⟨ht, hle'⟩ := countP_le_of_measure μ own early n hstep as hPu hrest
    refine ⟨ht, ?_⟩
    have hcount : ∀ p : α → Bool, (a :: as).countP p = as.countP p + (p a).toNat := by
      intro p
      rw [List.countP_cons]
      cases p a <;> rfl
    rw [hcount, hcount, Nat.mul_add]
    omega

/-- **The termination rule**: where every step keeps `P` and comes down by a measure, a run takes no more steps than it
comes down. -/
theorem length_le_of_measure {M : Machine σ α} {P : σ → Prop} (μ : σ → Nat)
    (hstep : ∀ s a t, P s → M.step s a = some t → P t ∧ μ t < μ s) {s t : σ} (as : List α) (hs : P s)
    (h : M.runFrom s as = some t) : P t ∧ as.length + μ t ≤ μ s := by
  obtain ⟨ht, hle⟩ := countP_le_of_measure μ (fun _ => true) (fun _ => false) 0
    (fun s a t hs hst => by
      obtain ⟨ht, hlt⟩ := hstep s a t hs hst
      refine ⟨ht, ?_⟩
      rw [Bool.toNat_true]
      omega) as hs h
  refine ⟨ht, ?_⟩
  rw [List.countP_true] at hle
  omega

/-! ## Runs whose steps all meet a condition -/

/-- The machine that takes only the steps `ok` allows. -/
def only (M : Machine σ α) (ok : σ → α → Bool) : Machine σ α where
  init := M.init
  step s a := if ok s a then M.step s a else none

section Only

variable {M : Machine σ α} {ok : σ → α → Bool}

theorem only_step {s t : σ} {a : α} : (M.only ok).step s a = some t ↔ ok s a = true ∧ M.step s a = some t := by
  simp only [only]
  split
  · rename_i hok; simp [hok]
  · rename_i hok; simp [hok]

/-- **A run that meets the condition is a run.** -/
theorem Reachable.of_only {s : σ} (h : (M.only ok).Reachable s) : M.Reachable s := by
  induction h with
  | init => exact .init
  | step a _ hst ih => exact .step a ih (only_step.1 hst).2

/-- **The invariant rule for the runs whose steps all meet the condition.** -/
theorem Reachable.only_invariant {I : σ → Prop} (hinit : I M.init)
    (hstep : ∀ s a t, I s → ok s a = true → M.step s a = some t → I t) {s : σ}
    (h : (M.only ok).Reachable s) : I s :=
  Reachable.invariant (M := M.only ok) hinit
    (fun s a t hI hst => hstep s a t hI (only_step.1 hst).1 (only_step.1 hst).2) h

end Only

/-! ## Runs with a record -/

/-- The machine with a record of its steps, each made of the one before, the action and the states around it. -/
def withHistory (M : Machine σ α) (h : η) (record : η → σ → α → σ → η) : Machine (σ × η) α where
  init := (M.init, h)
  step p a := (M.step p.1 a).map (fun t => (t, record p.2 p.1 a t))

section History

variable {M : Machine σ α} {h₀ : η} {record : η → σ → α → σ → η}

theorem withHistory_step {p q : σ × η} {a : α} : (M.withHistory h₀ record).step p a = some q ↔
    M.step p.1 a = some q.1 ∧ q.2 = record p.2 p.1 a q.1 := by
  simp only [withHistory, Option.map_eq_some_iff]
  constructor
  · rintro ⟨t, ht, rfl⟩
    exact ⟨ht, rfl⟩
  · rintro ⟨hq, hrec⟩
    exact ⟨q.1, hq, by rw [← hrec]⟩

/-- **A recorded run is a run.** -/
theorem Reachable.fst {p : σ × η} (h : (M.withHistory h₀ record).Reachable p) : M.Reachable p.1 := by
  induction h with
  | init => exact .init
  | step a _ hst ih => exact .step a ih (withHistory_step.1 hst).1

/-- **Every run can be recorded.** -/
theorem Reachable.exists_history (h₀ : η) (record : η → σ → α → σ → η) {s : σ} (h : M.Reachable s) :
    ∃ r, (M.withHistory h₀ record).Reachable (s, r) := by
  induction h with
  | init => exact ⟨h₀, .init⟩
  | @step s t a _ hst ih =>
    obtain ⟨r, hr⟩ := ih
    exact ⟨record r s a t, .step a hr (withHistory_step.2 ⟨hst, rfl⟩)⟩

/-- **The invariant rule for a state and the record it is reached with.** -/
theorem Reachable.history_invariant {J : σ → Prop} {I : σ → η → Prop} (hJ : ∀ s, M.Reachable s → J s)
    (hinit : I M.init h₀) (hstep : ∀ s r a t, J s → I s r → M.step s a = some t → I t (record r s a t)) {s : σ} {r : η}
    (h : (M.withHistory h₀ record).Reachable (s, r)) : I s r := by
  have hall : ∀ p, (M.withHistory h₀ record).Reachable p → I p.1 p.2 := by
    intro p hp
    induction hp with
    | init => exact hinit
    | step a hr hst ih =>
      obtain ⟨hst, hrec⟩ := withHistory_step.1 hst
      rw [hrec]
      exact hstep _ _ a _ (hJ _ hr.fst) ih hst
  exact hall (s, r) h

end History

/-! ## One machine inside another -/

/-- **A state map that turns each step into a step or into nothing carries reachability along.** -/
theorem Reachable.map {M : Machine σ α} {N : Machine τ β} (f : σ → τ) (hinit : N.Reachable (f M.init))
    (hstep : ∀ s a t, M.Reachable s → M.step s a = some t → f t = f s ∨ ∃ b, N.step (f s) b = some (f t)) {s : σ}
    (h : M.Reachable s) : N.Reachable (f s) := by
  induction h with
  | init => exact hinit
  | step a hr hst ih =>
    rcases hstep _ a _ hr hst with heq | ⟨b, hb⟩
    · rw [heq]; exact ih
    · exact .step b ih hb

/-- **What is related to the first state and follows each step, by a step or by none, follows every run.** -/
theorem Reachable.simulated {M : Machine σ α} {N : Machine τ β} {R : σ → τ → Prop} (hinit : R M.init N.init)
    (hstep : ∀ s t a s', M.Reachable s → R s t → M.step s a = some s' →
      R s' t ∨ ∃ b t', N.step t b = some t' ∧ R s' t') {s : σ} (h : M.Reachable s) : ∃ t, N.Reachable t ∧ R s t := by
  induction h with
  | init => exact ⟨N.init, .init, hinit⟩
  | step a hr hst ih =>
    obtain ⟨t, ht, hR⟩ := ih
    rcases hstep _ t a _ hr hR hst with hR' | ⟨b, t', hb, hR'⟩
    · exact ⟨t, ht, hR'⟩
    · exact ⟨t', .step b ht hb, hR'⟩

end Machine

/-- An update that does not show at its place shows nowhere. -/
theorem apply_update_of_eq {ι β γ : Type} [DecidableEq ι] (f : ι → β → γ) {h : ι → β} {i : ι} {x : β}
    (hx : f i x = f i (h i)) (j : ι) : f j (Function.update h i x j) = f j (h j) := by
  by_cases hj : j = i
  · rw [hj, Function.update_self, hx]
  · rw [Function.update_of_ne hj]

end ThreadMessaging

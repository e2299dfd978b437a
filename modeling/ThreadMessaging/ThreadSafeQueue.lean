import ThreadMessaging.Machine
import ThreadMessaging.Tally
/-!
# `ThreadSafeQueue`: any number of threads and a stop condition

`threading/threadSafeQueue.hpp` for any number of threads, each calling `push`, `tryPop` and `waitPop` at will.
`m_queue` is only touched under `m_mutex`, so what a thread does in one stay in the mutex is one step, but for one
place: `waitPop`'s `stopPredicate()` reads a flag that is set by whoever stops the threads, without the mutex and
without a notification, and so between a predicate that came out false and the block that follows it, too.
-/
namespace ThreadMessaging

/-- Where a thread stands; `block` is `waitPop` past a predicate that came out false, with the mutex still held. -/
inductive SafeQueuePc (T : Type)
  | idle
  | notify
  | block
  | blocked
  | woken
  | ret (value : Option T)
  deriving DecidableEq, Repr

structure ThreadSafeQueue (ι T : Type) where
  queue : List T
  /-- Who holds `m_mutex` from one step to the next. -/
  mutex : Option ι
  /-- What `stopPredicate()` returns. -/
  stop  : Bool
  pc    : ι → SafeQueuePc T

/-- What can happen next.  `notifyOne i (some j)` wakes the blocked `j`; `notifyOne i none` finds nobody blocked. -/
inductive SafeQueueAct (ι T : Type)
  | push (i : ι) (value : T)
  | notifyOne (i : ι) (target : Option ι)
  | tryPop (i : ι)
  | waitPop (i : ι)
  | block (i : ι)
  | wake (j : ι)
  | recheck (j : ι)
  | ret (i : ι)
  | setStop

namespace ThreadSafeQueue

variable {ι T : Type} [DecidableEq ι]

def setPc (s : ThreadSafeQueue ι T) (i : ι) (p : SafeQueuePc T) : ThreadSafeQueue ι T :=
  { s with pc := Function.update s.pc i p }

/-- The front value out of the queue, if there is one. -/
def popAndReturn (s : ThreadSafeQueue ι T) (i : ι) : ThreadSafeQueue ι T :=
  { s.setPc i (.ret s.queue.head?) with queue := s.queue.tail }

/-- `!m_queue.empty() || stopPredicate()` under the mutex: a predicate that comes out true is followed by the pop, or by
the return of nothing. -/
def check (s : ThreadSafeQueue ι T) (i : ι) : ThreadSafeQueue ι T :=
  if !s.queue.isEmpty || s.stop then s.popAndReturn i
  else { s.setPc i .block with mutex := some i }

/-- Blocked and not notified. -/
def asleep : SafeQueuePc T → Nat
  | .blocked => 1
  | _        => 0

/-- Past a push and short of its `notify_one`. -/
def notifying : SafeQueuePc T → Nat
  | .notify => 1
  | _       => 0

variable [Fintype ι]

def step (s : ThreadSafeQueue ι T) : SafeQueueAct ι T → Option (ThreadSafeQueue ι T)
  | .push i value =>
    match s.pc i, s.mutex with
    | .idle, none => some { s.setPc i .notify with queue := s.queue ++ [value] }
    | _, _        => none
  | .notifyOne i (some j) =>
    match s.pc i, s.pc j with
    | .notify, .blocked => some ((s.setPc i .idle).setPc j .woken)
    | _, _              => none
  | .notifyOne i none =>
    match s.pc i with
    | .notify => if ∀ j, asleep (s.pc j) = 0 then some (s.setPc i .idle) else none
    | _       => none
  | .tryPop i =>
    match s.pc i, s.mutex with
    | .idle, none => some (s.popAndReturn i)
    | _, _        => none
  | .waitPop i =>
    match s.pc i, s.mutex with
    | .idle, none => some (s.check i)
    | _, _        => none
  | .block i =>
    match s.pc i with
    | .block => some { s.setPc i .blocked with mutex := none }
    | _      => none
  | .wake j =>
    match s.pc j with
    | .blocked => some (s.setPc j .woken)
    | _        => none
  | .recheck j =>
    match s.pc j, s.mutex with
    | .woken, none => some (s.check j)
    | _, _         => none
  | .ret i =>
    match s.pc i with
    | .ret _ => some (s.setPc i .idle)
    | _      => none
  | .setStop => some { s with stop := true }

def machine (ι T : Type) [DecidableEq ι] [Fintype ι] : Machine (ThreadSafeQueue ι T) (SafeQueueAct ι T) where
  init := { queue := [], mutex := none, stop := false, pc := fun _ => .idle }
  step := step

/-- **What a step can be**: a push, a notification, a `tryPop`, a check of `waitPop` at its call or after a wake-up, a
block, a wake-up, a return, or the stop. -/
theorem step_cases {s t : ThreadSafeQueue ι T} {a : SafeQueueAct ι T} (hst : s.step a = some t) :
    (∃ i value, s.pc i = .idle ∧ s.mutex = none ∧ t = { s.setPc i .notify with queue := s.queue ++ [value] }) ∨
    (∃ i j, s.pc i = .notify ∧ s.pc j = .blocked ∧ t = (s.setPc i .idle).setPc j .woken) ∨
    (∃ i, s.pc i = .notify ∧ (∀ j, asleep (s.pc j) = 0) ∧ t = s.setPc i .idle) ∨
    (∃ i, s.pc i = .idle ∧ s.mutex = none ∧ t = s.popAndReturn i) ∨
    (∃ i, (s.pc i = .idle ∨ s.pc i = .woken) ∧ s.mutex = none ∧ t = s.check i) ∨
    (∃ i, s.pc i = .block ∧ t = { s.setPc i .blocked with mutex := none }) ∨
    (∃ j, s.pc j = .blocked ∧ t = s.setPc j .woken) ∨
    (∃ i value, s.pc i = .ret value ∧ t = s.setPc i .idle) ∨
    (a = .setStop ∧ t = { s with stop := true }) := by
  cases a with
  | push i value =>
    simp only [step] at hst
    split at hst
    · rename_i hi hm; cases hst; exact .inl ⟨i, value, hi, hm, rfl⟩
    · cases hst
  | notifyOne i target =>
    cases target with
    | some j =>
      simp only [step] at hst
      split at hst
      · rename_i hi hj; cases hst; exact .inr (.inl ⟨i, j, hi, hj, rfl⟩)
      · cases hst
    | none =>
      simp only [step] at hst
      split at hst
      · rename_i hi
        split at hst
        · rename_i hnone
          cases hst; exact .inr (.inr (.inl ⟨i, hi, hnone, rfl⟩))
        · cases hst
      · cases hst
  | tryPop i =>
    simp only [step] at hst
    split at hst
    · rename_i hi hm; cases hst; exact .inr (.inr (.inr (.inl ⟨i, hi, hm, rfl⟩)))
    · cases hst
  | waitPop i =>
    simp only [step] at hst
    split at hst
    · rename_i hi hm; cases hst; exact .inr (.inr (.inr (.inr (.inl ⟨i, .inl hi, hm, rfl⟩))))
    · cases hst
  | block i =>
    simp only [step] at hst
    split at hst
    · rename_i hi; cases hst; exact .inr (.inr (.inr (.inr (.inr (.inl ⟨i, hi, rfl⟩)))))
    · cases hst
  | wake j =>
    simp only [step] at hst
    split at hst
    · rename_i hj; cases hst; exact .inr (.inr (.inr (.inr (.inr (.inr (.inl ⟨j, hj, rfl⟩))))))
    · cases hst
  | recheck j =>
    simp only [step] at hst
    split at hst
    · rename_i hj hm; cases hst; exact .inr (.inr (.inr (.inr (.inl ⟨j, .inr hj, hm, rfl⟩))))
    · cases hst
  | ret i =>
    simp only [step] at hst
    split at hst
    · rename_i value hi
      cases hst
      exact .inr (.inr (.inr (.inr (.inr (.inr (.inr (.inl ⟨i, value, hi, rfl⟩)))))))
    · cases hst
  | setStop =>
    cases hst
    exact .inr (.inr (.inr (.inr (.inr (.inr (.inr (.inr ⟨rfl, rfl⟩)))))))

/-! ## A stop in time -/

/-- **The flag is set, a consumer is blocked un-notified, and no call is in progress that could notify it**: every other
thread has returned, or is blocked as well. -/
def Stuck (s : ThreadSafeQueue ι T) : Prop :=
  s.stop = true ∧ (∃ i, s.pc i = .blocked) ∧ ∀ j, s.pc j = .idle ∨ s.pc j = .blocked

/-- The flag is set at a time when no `waitPop` is between its predicate and its block, and no more consumers are
blocked than pushes are about to notify. -/
def inTime (s : ThreadSafeQueue ι T) : SafeQueueAct ι T → Bool
  | .setStop => s.mutex.isNone && tally asleep s.pc ≤ tally notifying s.pc
  | _        => true

/-- The mutex is held from one step to the next by a `waitPop` that is about to block. -/
def MutexInv (s : ThreadSafeQueue ι T) : Prop := ∀ i, s.pc i = .block ↔ s.mutex = some i

omit [Fintype ι] in
theorem MutexInv.setPc {s : ThreadSafeQueue ι T} (h : s.MutexInv) {i : ι} {p : SafeQueuePc T} (hi : s.pc i ≠ .block)
    (hp : p ≠ .block) : (s.setPc i p).MutexInv := by
  intro j
  show Function.update s.pc i p j = .block ↔ s.mutex = some j
  by_cases hj : j = i
  · subst hj
    rw [Function.update_self]
    exact ⟨fun he => absurd he hp, fun hm => absurd ((h j).2 hm) hi⟩
  · rw [Function.update_of_ne hj]
    exact h j

omit [Fintype ι] in
theorem MutexInv.check {s : ThreadSafeQueue ι T} (h : s.MutexInv) {i : ι} (hm : s.mutex = none) :
    (s.check i).MutexInv := by
  have hnone : ∀ j, s.pc j ≠ .block := fun j hj => by
    have := (h j).1 hj
    rw [hm] at this; cases this
  unfold ThreadSafeQueue.check
  split
  · exact h.setPc (hnone i) nofun
  · intro j
    show Function.update s.pc i .block j = .block ↔ some i = some j
    by_cases hj : j = i
    · subst hj; simp
    · rw [Function.update_of_ne hj, Option.some.injEq]
      exact ⟨fun hb => absurd hb (hnone j), fun he => absurd he.symm hj⟩

theorem mutexInv_step {s t : ThreadSafeQueue ι T} {a : SafeQueueAct ι T} (h : s.MutexInv) (hst : s.step a = some t) :
    t.MutexInv := by
  rcases step_cases hst with ⟨i, value, hi, -, rfl⟩ | ⟨i, j, hi, hj, rfl⟩ | ⟨i, hi, -, rfl⟩ | ⟨i, hi, -, rfl⟩ |
    ⟨i, -, hm, rfl⟩ | ⟨i, hi, rfl⟩ | ⟨j, hj, rfl⟩ | ⟨i, value, hi, rfl⟩ | ⟨-, rfl⟩
  · exact h.setPc (by rw [hi]; exact nofun) nofun
  · have hij : j ≠ i := fun he => by rw [he, hi] at hj; cases hj
    refine (h.setPc (p := .idle) (by rw [hi]; exact nofun) nofun).setPc ?_ nofun
    show Function.update s.pc i .idle j ≠ .block
    rw [Function.update_of_ne hij, hj]
    exact nofun
  · exact h.setPc (by rw [hi]; exact nofun) nofun
  · exact h.setPc (by rw [hi]; exact nofun) nofun
  · exact h.check hm
  · -- the block gives the mutex back
    intro j
    show Function.update s.pc i .blocked j = .block ↔ none = some j
    have hown := (h i).1 hi
    by_cases hj : j = i
    · subst hj; simp
    · rw [Function.update_of_ne hj]
      refine ⟨fun hb => ?_, nofun⟩
      have := (h j).1 hb
      rw [hown] at this
      exact absurd (Option.some.inj this).symm hj
  · exact h.setPc (by rw [hj]; exact nofun) nofun
  · exact h.setPc (by rw [hi]; exact nofun) nofun
  · exact h

theorem reachable_mutexInv {s : ThreadSafeQueue ι T} (hs : (machine ι T).Reachable s) : s.MutexInv :=
  hs.invariant (fun _ => ⟨nofun, nofun⟩) (fun s _ _ hI hst => mutexInv_step (s := s) hI hst)

theorem tally_setPc (w : SafeQueuePc T → Nat) (s : ThreadSafeQueue ι T) (i : ι) (p : SafeQueuePc T) :
    tally w (s.setPc i p).pc + w (s.pc i) = tally w s.pc + w p :=
  tally_update w s.pc i p

/-- A notification exchanges a push to come for a thread that is awake. -/
theorem tally_notifyOne (w : SafeQueuePc T → Nat) {s : ThreadSafeQueue ι T} {i j : ι} (hi : s.pc i = .notify)
    (hj : s.pc j = .blocked) : tally w ((s.setPc i .idle).setPc j .woken).pc + w .notify + w .blocked =
      tally w s.pc + w .idle + w .woken := by
  have hij : j ≠ i := fun he => by rw [he, hi] at hj; cases hj
  have h1 := tally_setPc w s i .idle
  have h2 := tally_setPc w (s.setPc i .idle) j .woken
  have hpc : (s.setPc i .idle).pc j = .blocked := (Function.update_of_ne hij ..).trans hj
  rw [hi] at h1
  rw [hpc] at h2
  omega

/-- **Once the flag is set**, nobody is about to block, and there is a notification to come for each that is blocked. -/
def Heard (s : ThreadSafeQueue ι T) : Prop :=
  s.stop = true → s.mutex = none ∧ tally asleep s.pc ≤ tally notifying s.pc

theorem Heard.setPc {s : ThreadSafeQueue ι T} (h : s.Heard) {i : ι} {p : SafeQueuePc T}
    (hw : asleep p + notifying (s.pc i) ≤ notifying p + asleep (s.pc i)) : (s.setPc i p).Heard := by
  intro hstop
  obtain ⟨hm, hle⟩ := h hstop
  have h1 := tally_setPc asleep s i p
  have h2 := tally_setPc notifying s i p
  exact ⟨hm, by omega⟩

theorem Heard.popAndReturn {s : ThreadSafeQueue ι T} (h : s.Heard) {i : ι} (hi : s.pc i = .idle ∨ s.pc i = .woken) :
    (s.popAndReturn i).Heard := by
  refine h.setPc (p := .ret s.queue.head?) ?_
  rcases hi with hi | hi <;> rw [hi] <;> exact Nat.le_refl 0

/-- Past the stop each check of `waitPop` comes out true. -/
theorem Heard.check {s : ThreadSafeQueue ι T} (h : s.Heard) {i : ι} (hi : s.pc i = .idle ∨ s.pc i = .woken) :
    (s.check i).Heard := by
  unfold ThreadSafeQueue.check
  split
  · exact h.popAndReturn hi
  · rename_i hno
    intro hstop
    have hstop : s.stop = true := hstop
    simp [hstop] at hno

theorem heard_step {s t : ThreadSafeQueue ι T} {a : SafeQueueAct ι T} (hmutex : s.MutexInv) (h : s.Heard)
    (hok : s.inTime a = true) (hst : s.step a = some t) : t.Heard := by
  rcases step_cases hst with ⟨i, value, hi, -, rfl⟩ | ⟨i, j, hi, hj, rfl⟩ | ⟨i, hi, hnone, rfl⟩ | ⟨i, hi, -, rfl⟩ |
    ⟨i, hi, -, rfl⟩ | ⟨i, hi, rfl⟩ | ⟨j, hj, rfl⟩ | ⟨i, value, hi, rfl⟩ | ⟨rfl, rfl⟩
  · exact h.setPc (p := .notify) (by simp [hi, asleep, notifying])
  · intro hstop
    obtain ⟨hm, hle⟩ := h hstop
    have h1 := tally_notifyOne asleep hi hj
    have h2 := tally_notifyOne notifying hi hj
    simp only [asleep, notifying] at h1 h2
    exact ⟨hm, by omega⟩
  · -- a notification that finds nobody is one too many
    intro hstop
    obtain ⟨hm, -⟩ := h hstop
    have h1 := tally_setPc asleep s i .idle
    have hzero := tally_eq_zero hnone
    rw [hi] at h1
    simp only [asleep] at h1
    exact ⟨hm, by omega⟩
  · exact h.popAndReturn (.inl hi)
  · exact h.check hi
  · -- nobody is about to block
    intro hstop
    obtain ⟨hm, -⟩ := h hstop
    have hown := (hmutex i).1 hi
    rw [hm] at hown; cases hown
  · exact h.setPc (by simp [hj, asleep, notifying])
  · exact h.setPc (by simp [hi, asleep, notifying])
  · intro _
    simpa [inTime] using hok

omit [DecidableEq ι] in
theorem not_stuck {s : ThreadSafeQueue ι T} (h : s.Heard) : ¬ s.Stuck := by
  rintro ⟨hstop, ⟨i, hi⟩, hrest⟩
  obtain ⟨-, hle⟩ := h hstop
  have hone := le_tally asleep s.pc i
  rw [hi] at hone
  have hzero : tally notifying s.pc = 0 := by
    refine tally_eq_zero (fun j => ?_)
    rcases hrest j with hj | hj <;> rw [hj] <;> rfl
  simp only [asleep] at hone
  omega

/-! ## A stop too late -/

/-- The flag is set, and a thread is about to block, or more are blocked than there are notifications to come. -/
structure Doomed (s : ThreadSafeQueue ι T) : Prop where
  stop  : s.stop = true
  mutex : s.MutexInv
  late  : s.mutex ≠ none ∨ tally notifying s.pc < tally asleep s.pc

/-- How far a thread is from its return, or from sleeping for good. -/
def rank : SafeQueuePc T → Nat
  | .idle    => 0
  | .notify  => 1
  | .ret _   => 1
  | .woken   => 2
  | .blocked => 3
  | .block   => 4

theorem asleep_eq_zero {p : SafeQueuePc T} : asleep p = 0 ↔ p ≠ .blocked := by
  cases p <;> simp [asleep]

/-- A notification that is due is made, to whoever is blocked. -/
theorem Doomed.notifies {s : ThreadSafeQueue ι T} (h : s.Doomed) {i : ι} (hi : s.pc i = .notify) :
    ∃ a t, s.step a = some t ∧ t.Doomed ∧ tally rank t.pc < tally rank s.pc := by
  by_cases hblk : ∃ j, s.pc j = .blocked
  · obtain ⟨j, hj⟩ := hblk
    have hst : s.step (.notifyOne i (some j)) = some ((s.setPc i .idle).setPc j .woken) := by simp [step, hi, hj]
    have h1 := tally_notifyOne asleep hi hj
    have h2 := tally_notifyOne notifying hi hj
    have h3 := tally_notifyOne rank hi hj
    simp only [asleep, notifying, rank] at h1 h2 h3
    refine ⟨_, _, hst, ⟨h.stop, mutexInv_step h.mutex hst, h.late.imp id (fun hlt => ?_)⟩, by omega⟩
    omega
  · have hnone : ∀ j, asleep (s.pc j) = 0 := fun j => asleep_eq_zero.2 (fun hj => hblk ⟨j, hj⟩)
    have hst : s.step (.notifyOne i none) = some (s.setPc i .idle) := by simp [step, hi, hnone]
    have h3 := tally_setPc rank s i .idle
    have hzero := tally_eq_zero hnone
    rw [hi] at h3
    simp only [rank] at h3
    refine ⟨_, _, hst, ⟨h.stop, mutexInv_step h.mutex hst, h.late.imp id (fun hlt => ?_)⟩, by omega⟩
    omega

/-- With nobody left to notify, the thread that is about to block sleeps for good. -/
theorem Doomed.blocks {s : ThreadSafeQueue ι T} (h : s.Doomed) (hzero : tally notifying s.pc = 0) {i : ι}
    (hm : s.mutex = some i) : ∃ a t, s.step a = some t ∧ t.Doomed ∧ tally rank t.pc < tally rank s.pc := by
  have hi := (h.mutex i).2 hm
  have hst : s.step (.block i) = some { s.setPc i .blocked with mutex := none } := by simp [step, hi]
  have h1 := tally_setPc asleep s i .blocked
  have h2 := tally_setPc notifying s i .blocked
  have h3 := tally_setPc rank s i .blocked
  rw [hi] at h1 h2 h3
  simp only [asleep, notifying, rank] at h1 h2 h3
  refine ⟨_, _, hst, ⟨h.stop, mutexInv_step h.mutex hst, .inr ?_⟩, ?_⟩
  · show tally notifying (s.setPc i .blocked).pc < tally asleep (s.setPc i .blocked).pc
    omega
  · show tally rank (s.setPc i .blocked).pc < _
    omega

/-- A thread goes on that neither sleeps nor wakes another. -/
theorem Doomed.goesOn {s : ThreadSafeQueue ι T} (h : s.Doomed) (hlate : tally notifying s.pc < tally asleep s.pc)
    {a : SafeQueueAct ι T} {i : ι} {p : SafeQueuePc T} {q : List T}
    (hst : s.step a = some { s.setPc i p with queue := q }) (ha : asleep p = asleep (s.pc i)) (hn : notifying p = 0)
    (hr : rank p < rank (s.pc i)) :
    ∃ a t, s.step a = some t ∧ t.Doomed ∧ tally rank t.pc < tally rank s.pc := by
  have h1 := tally_setPc asleep s i p
  have h2 := tally_setPc notifying s i p
  have h3 := tally_setPc rank s i p
  have h4 := le_tally notifying s.pc i
  refine ⟨a, _, hst, ⟨h.stop, mutexInv_step h.mutex hst, .inr ?_⟩, ?_⟩
  · show tally notifying (s.setPc i p).pc < tally asleep (s.setPc i p).pc
    omega
  · show tally rank (s.setPc i p).pc < _
    omega

/-- The threads that can go on without waking the one that is to sleep do. -/
theorem Doomed.next {s : ThreadSafeQueue ι T} (h : s.Doomed) (hno : ¬ s.Stuck) :
    ∃ a t, s.step a = some t ∧ t.Doomed ∧ tally rank t.pc < tally rank s.pc := by
  by_cases hnot : ∃ i, s.pc i = .notify
  · obtain ⟨i, hi⟩ := hnot
    exact h.notifies hi
  have hzero : tally notifying s.pc = 0 := by
    refine tally_eq_zero (fun i => ?_)
    cases hi : s.pc i with
    | notify => exact absurd ⟨i, hi⟩ hnot
    | _ => rfl
  cases hm : s.mutex with
  | some i => exact h.blocks hzero hm
  | none =>
    have hlate : tally notifying s.pc < tally asleep s.pc := h.late.resolve_left (fun hne => hne hm)
    by_cases hwoken : ∃ i, s.pc i = .woken
    · obtain ⟨i, hi⟩ := hwoken
      have hst : s.step (.recheck i) = some (s.popAndReturn i) := by simp [step, hi, hm, check, h.stop]
      exact h.goesOn hlate (p := .ret s.queue.head?) hst (by rw [hi]; rfl) rfl (by simp [hi, rank])
    by_cases hret : ∃ i v, s.pc i = .ret v
    · obtain ⟨i, v, hi⟩ := hret
      have hst : s.step (.ret i) = some (s.setPc i .idle) := by simp [step, hi]
      exact h.goesOn hlate (p := .idle) hst (by rw [hi]; rfl) rfl (by simp [hi, rank])
    -- everybody else is idle or blocked: this is the end
    refine absurd ⟨h.stop, ?_, fun j => ?_⟩ hno
    · obtain ⟨i, hi⟩ := exists_of_tally_pos (w := asleep) (f := s.pc) (by omega)
      exact ⟨i, by_contra (fun hne => by have := asleep_eq_zero.2 hne; omega)⟩
    · cases hj : s.pc j with
      | idle => exact .inl rfl
      | blocked => exact .inr rfl
      | notify => exact absurd ⟨j, hj⟩ hnot
      | woken => exact absurd ⟨j, hj⟩ hwoken
      | ret v => exact absurd ⟨j, v, hj⟩ hret
      | block =>
        have hown := (h.mutex j).1 hj
        rw [hm] at hown; cases hown

theorem Doomed.exists_stuck {s : ThreadSafeQueue ι T} (h : s.Doomed) :
    ∃ as t, (machine ι T).runFrom s as = some t ∧ t.Stuck :=
  Machine.exists_run_of_measure (M := machine ι T) (P := Doomed) (fun s => tally rank s.pc)
    (fun _ hs hno => hs.next hno) h

/-- **`waitPop` heeds its stop condition** in any run in which the flag is set when no `waitPop` is about to block and
no more are blocked than pushes are about to notify; and a flag that is set at any other time can leave one blocked,
with every other call returned. -/
theorem waitPop_stops {s : ThreadSafeQueue ι T} (hs : ((machine ι T).only inTime).Reachable s) : ¬ s.Stuck ∧
    ∀ a t, s.step a = some t → inTime s a = false → ∃ as u, (machine ι T).runFrom t as = some u ∧ u.Stuck := by
  have hmutex := reachable_mutexInv hs.of_only
  have hheard : s.Heard := by
    have hall : s.MutexInv ∧ s.Heard := hs.only_invariant (I := fun s => s.MutexInv ∧ s.Heard)
      ⟨fun _ => ⟨nofun, nofun⟩, nofun⟩
      (fun s _ _ hI hok hst => ⟨mutexInv_step (s := s) hI.1 hst, heard_step (s := s) hI.1 hI.2 hok hst⟩)
    exact hall.2
  refine ⟨not_stuck hheard, fun a t hst hlate => ?_⟩
  cases a with
  | setStop =>
    cases hst
    refine Doomed.exists_stuck ⟨rfl, hmutex, ?_⟩
    cases hm : s.mutex with
    | some i => exact .inl nofun
    | none =>
      right
      simpa [inTime, hm] using hlate
  | _ => cases hlate

/-- Stopped while a push is about to notify the one consumer that is blocked: it returns with the value. -/
theorem waitPop_stops_pushing : ∃ s : ThreadSafeQueue (Fin 2) Nat, s.stop = true ∧ s.pc 0 = .ret (some 5) ∧
    ¬ s.Stuck := by
  obtain ⟨s, hrun⟩ : ∃ s, ((machine (Fin 2) Nat).only inTime).runFrom ((machine (Fin 2) Nat).only inTime).init
      [.waitPop 0, .block 0, .push 1 5, .setStop, .notifyOne 1 (some 0), .recheck 0] = some s := ⟨_, rfl⟩
  have hstop : s.stop = true := by cases hrun; rfl
  have h0 : s.pc 0 = .ret (some 5) := by cases hrun; rfl
  exact ⟨s, hstop, h0, (waitPop_stops (Machine.reachable_of_run _ hrun)).1⟩

/-- **A consumer can stay blocked when the flag is set**: nobody notifies it. -/
theorem exists_stuckConsumer : ¬ ∀ s, (machine (Fin 2) Nat).Reachable s → s.stop = true →
    ∀ i, (∀ j, j ≠ i → s.pc j = .idle) → s.pc i ≠ .blocked := by
  intro hall
  obtain ⟨s, hrun⟩ : ∃ s, (machine (Fin 2) Nat).runFrom (machine (Fin 2) Nat).init
      [.push 1 5, .notifyOne 1 none, .waitPop 0, .ret 0, .waitPop 0, .block 0, .setStop] = some s := ⟨_, rfl⟩
  have hstop : s.stop = true := by cases hrun; rfl
  have h0 : s.pc 0 = .blocked := by cases hrun; rfl
  have h1 : s.pc 1 = .idle := by cases hrun; rfl
  refine hall s (Machine.reachable_of_run _ hrun) hstop 0 (fun j hj => ?_) h0
  match j with
  | 0 => exact absurd rfl hj
  | 1 => exact h1

end ThreadSafeQueue
end ThreadMessaging

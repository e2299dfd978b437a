import ThreadMessaging.Machine
import ThreadMessaging.Tally
/-!
# `MessageQueue`: any number of producers and consumers

`messaging/messageQueue.hpp` for any number of threads, each calling `push`, `try_pop`, `wait`, `wait_for` and `clear`
at will.  `m_queue` is only touched under `m_mutex`, so what a thread does in one stay in the mutex is one step:

* `push` enqueues and releases the mutex, then calls `notify_one`: two steps;
* `wait` and `wait_for` check `!m_queue.empty()` under the mutex and pop, or release the mutex and block, in one step;
  a thread woken by a notification, spuriously or by its timeout re-acquires the mutex and checks again, and a
  `wait_for` whose timeout has passed returns after that check.

A `std::shared_ptr<MessageBase>` is an `Option M`: `push(std::shared_ptr<T>)` takes a null pointer too.
-/
namespace ThreadMessaging

inductive PopCall
  | tryPop
  | wait
  | waitFor
  deriving DecidableEq, Repr

/-- Where a thread stands; `ret` has the result of the call and what the queue was at its last check. -/
inductive QueuePc (M : Type)
  | idle
  | notify
  | blocked (call : PopCall)
  | woken (call : PopCall)
  | ret (call : PopCall) (result : Option M) (seen : List (Option M))
  deriving DecidableEq, Repr

structure MessageQueue (ι M : Type) where
  queue : List (Option M)
  pc    : ι → QueuePc M

/-- What can happen next.  `notifyOne i (some j)` wakes the blocked `j`; `notifyOne i none` finds nobody blocked. -/
inductive QueueAct (ι M : Type)
  | push (i : ι) (msg : Option M)
  | notifyOne (i : ι) (target : Option ι)
  | call (i : ι) (c : PopCall)
  | wake (j : ι)
  | recheck (j : ι) (timedOut : Bool)
  | clear (i : ι)
  | ret (i : ι)

namespace MessageQueue

variable {ι M : Type}

/-- The private `pop`: the front message, or null. -/
def pop : List (Option M) → Option M × List (Option M)
  | []       => (none, [])
  | msg :: q => (msg, q)

section Steps

variable [DecidableEq ι]

def setPc (s : MessageQueue ι M) (i : ι) (p : QueuePc M) : MessageQueue ι M :=
  { s with pc := Function.update s.pc i p }

def popAndReturn (s : MessageQueue ι M) (i : ι) (c : PopCall) : MessageQueue ι M :=
  { queue := (pop s.queue).2, pc := Function.update s.pc i (.ret c (pop s.queue).1 s.queue) }

/-- A check under the mutex: a queue that is not empty is popped; otherwise `try_pop` and a `wait_for` past its
timeout return empty, and the others block. -/
def check (s : MessageQueue ι M) (i : ι) (c : PopCall) (timedOut : Bool) : MessageQueue ι M :=
  if s.queue.isEmpty then
    match c, timedOut with
    | .tryPop, _     => s.popAndReturn i .tryPop
    | .waitFor, true => s.setPc i (.ret .waitFor none s.queue)
    | c, _           => s.setPc i (.blocked c)
  else s.popAndReturn i c

end Steps

def isBlocked : QueuePc M → Bool
  | .blocked _ => true
  | _          => false

section Machine

variable [DecidableEq ι] [Fintype ι]

def step (s : MessageQueue ι M) : QueueAct ι M → Option (MessageQueue ι M)
  | .push i msg =>
    match s.pc i with
    | .idle => some { queue := s.queue ++ [msg], pc := Function.update s.pc i .notify }
    | _     => none
  | .notifyOne i (some j) =>
    match s.pc i, s.pc j with
    | .notify, .blocked c => some ((s.setPc i .idle).setPc j (.woken c))
    | _, _                => none
  | .notifyOne i none =>
    match s.pc i with
    | .notify => if ∀ j, isBlocked (s.pc j) = false then some (s.setPc i .idle) else none
    | _       => none
  | .call i c =>
    match s.pc i with
    | .idle => some (s.check i c false)
    | _     => none
  | .wake j =>
    match s.pc j with
    | .blocked c => some (s.setPc j (.woken c))
    | _          => none
  | .recheck j timedOut =>
    match s.pc j with
    | .woken c => some (s.check j c timedOut)
    | _        => none
  | .clear i =>
    match s.pc i with
    | .idle => some { s with queue := [] }
    | _     => none
  | .ret i =>
    match s.pc i with
    | .ret _ _ _ => some (s.setPc i .idle)
    | _          => none

def machine (ι M : Type) [DecidableEq ι] [Fintype ι] : Machine (MessageQueue ι M) (QueueAct ι M) where
  init := { queue := [], pc := fun _ => .idle }
  step := step

/-- **What a step can be**: a push, a notification, a check at a call or after a wake-up, a wake-up, a clear or a
return. -/
theorem step_cases {s t : MessageQueue ι M} {a : QueueAct ι M} (hst : s.step a = some t) :
    (∃ i msg, a = .push i msg ∧ s.pc i = .idle ∧
      t = { queue := s.queue ++ [msg], pc := Function.update s.pc i .notify }) ∨
    (∃ i j c, a = .notifyOne i (some j) ∧ s.pc i = .notify ∧ s.pc j = .blocked c ∧
      t = (s.setPc i .idle).setPc j (.woken c)) ∨
    (∃ i, a = .notifyOne i none ∧ s.pc i = .notify ∧ (∀ j, isBlocked (s.pc j) = false) ∧ t = s.setPc i .idle) ∨
    (∃ i c timedOut, (a = .call i c ∧ timedOut = false ∨ a = .recheck i timedOut ∧ s.pc i = .woken c) ∧
      t = s.check i c timedOut) ∨
    (∃ j c, a = .wake j ∧ s.pc j = .blocked c ∧ t = s.setPc j (.woken c)) ∨
    (∃ i, a = .clear i ∧ t = { s with queue := [] }) ∨
    (∃ i c msg seen, a = .ret i ∧ s.pc i = .ret c msg seen ∧ t = s.setPc i .idle) := by
  cases a with
  | push i msg =>
    simp only [step] at hst
    split at hst
    · rename_i hi; cases hst; exact .inl ⟨i, msg, rfl, hi, rfl⟩
    · cases hst
  | notifyOne i target =>
    cases target with
    | some j =>
      simp only [step] at hst
      split at hst
      · rename_i c hi hj; cases hst; exact .inr (.inl ⟨i, j, c, rfl, hi, hj, rfl⟩)
      · cases hst
    | none =>
      simp only [step] at hst
      split at hst
      · rename_i hi
        split at hst
        · rename_i hnone; cases hst; exact .inr (.inr (.inl ⟨i, rfl, hi, hnone, rfl⟩))
        · cases hst
      · cases hst
  | call i c =>
    simp only [step] at hst
    split at hst
    · cases hst; exact .inr (.inr (.inr (.inl ⟨i, c, false, .inl ⟨rfl, rfl⟩, rfl⟩)))
    · cases hst
  | wake j =>
    simp only [step] at hst
    split at hst
    · rename_i c hj; cases hst; exact .inr (.inr (.inr (.inr (.inl ⟨j, c, rfl, hj, rfl⟩))))
    · cases hst
  | recheck j timedOut =>
    simp only [step] at hst
    split at hst
    · rename_i c hj; cases hst; exact .inr (.inr (.inr (.inl ⟨j, c, timedOut, .inr ⟨rfl, hj⟩, rfl⟩)))
    · cases hst
  | clear i =>
    simp only [step] at hst
    split at hst
    · cases hst; exact .inr (.inr (.inr (.inr (.inr (.inl ⟨i, rfl, rfl⟩)))))
    · cases hst
  | ret i =>
    simp only [step] at hst
    split at hst
    · rename_i c msg seen hi
      cases hst
      exact .inr (.inr (.inr (.inr (.inr (.inr ⟨i, c, msg, seen, rfl, hi, rfl⟩)))))
    · cases hst

end Machine

/-! ## One `notify_one` a push is enough -/

/-- A thread about to notify, or woken and not yet at its check. -/
def busy : QueuePc M → Nat
  | .notify  => 1
  | .woken _ => 1
  | _        => 0

theorem busy_le_one (p : QueuePc M) : busy p ≤ 1 := by
  cases p <;> simp [busy]

/-- A thread that blocks does so on an empty queue; any other move keeps the blocked threads blocked. -/
theorem exists_blocked_of_update [DecidableEq ι] {f : ι → QueuePc M} {i : ι} {p : QueuePc M}
    (hp : isBlocked p = false) (h : ∃ j, isBlocked (Function.update f i p j) = true) :
    ∃ j, isBlocked (f j) = true := by
  obtain ⟨j, hj⟩ := h
  by_cases hji : j = i
  · subst hji
    rw [Function.update_self, hp] at hj
    cases hj
  · rw [Function.update_of_ne hji] at hj
    exact ⟨j, hj⟩

theorem length_pop (q : List (Option M)) : (pop q).2.length = q.length - 1 := by
  cases q <;> rfl

variable [DecidableEq ι] [Fintype ι]

/-- **While a thread is blocked, there are no more messages than notifications to come and checks to be made.** -/
def Covered (s : MessageQueue ι M) : Prop :=
  (∃ i, isBlocked (s.pc i) = true) → s.queue.length ≤ tally busy s.pc

/-- A check pays for the message it takes. -/
theorem covered_check {s : MessageQueue ι M} (h : s.Covered) (i : ι) (c : PopCall) (timedOut : Bool) :
    (s.check i c timedOut).Covered := by
  unfold check
  split
  · rename_i he
    have hq : s.queue = [] := List.isEmpty_iff.1 he
    split
    · intro _; simp [popAndReturn, hq, pop]
    · intro _; simp [setPc, hq]
    · intro _; simp [setPc, hq]
  · intro hblocked
    have hlen := h (exists_blocked_of_update rfl hblocked)
    have htally := tally_update busy s.pc i (.ret c (pop s.queue).1 s.queue)
    have hret : busy (.ret c (pop s.queue).1 s.queue) = 0 := rfl
    have hle := busy_le_one (s.pc i)
    simp only [popAndReturn, length_pop]
    omega

theorem covered_step {s t : MessageQueue ι M} {a : QueueAct ι M} (h : s.Covered) (hst : s.step a = some t) :
    t.Covered := by
  rcases step_cases hst with ⟨i, msg, -, hi, rfl⟩ | ⟨i, j, c, -, hi, hj, rfl⟩ | ⟨i, -, -, hnone, rfl⟩ |
    ⟨i, c, timedOut, -, rfl⟩ | ⟨j, c, -, hj, rfl⟩ | ⟨i, -, rfl⟩ | ⟨i, c, msg, seen, -, hi, rfl⟩
  · -- the push adds a message and its own notification
    intro hblocked
    have hlen := h (exists_blocked_of_update rfl hblocked)
    have htally := tally_update busy s.pc i .notify
    rw [hi] at htally
    simp only [busy] at htally
    simp only [List.length_append, List.length_singleton]
    omega
  · -- the notification becomes the woken thread's check
    intro _
    have hlen := h ⟨j, by rw [hj]; rfl⟩
    have hij : j ≠ i := fun he => by rw [he, hi] at hj; cases hj
    have h1 := tally_update busy s.pc i .idle
    have h2 := tally_update busy (Function.update s.pc i .idle) j (.woken c)
    rw [hi] at h1
    rw [Function.update_of_ne hij, hj] at h2
    simp only [busy] at h1 h2
    simp only [setPc]
    omega
  · intro hblocked
    obtain ⟨j, hj⟩ := exists_blocked_of_update rfl hblocked
    rw [hnone j] at hj
    cases hj
  · exact covered_check h i c timedOut
  · intro hblocked
    have hlen := h (exists_blocked_of_update rfl hblocked)
    have htally := tally_update busy s.pc j (.woken c)
    rw [hj] at htally
    simp only [busy] at htally
    simp only [setPc]
    omega
  · exact fun _ => Nat.zero_le _
  · intro hblocked
    have hlen := h (exists_blocked_of_update rfl hblocked)
    rw [setPc, tally_update_of_eq (by rw [hi]; rfl)]
    exact hlen

theorem covered {s : MessageQueue ι M} (hs : (machine ι M).Reachable s) : s.Covered :=
  hs.invariant (fun hb => by obtain ⟨i, hi⟩ := hb; cases hi) (fun s _ _ hI hst => covered_step (s := s) hI hst)

/-! ## What the popping calls return -/

/-- **What a call returns** is the message at the front of the queue at its last check, or null if the queue was empty
there, from which `wait` does not return; and all it saw in the queue satisfies `P`. -/
def Returned (P : Option M → Prop) : QueuePc M → Prop
  | .ret c r q => ((q = [] ∧ r = none ∧ c ≠ .wait) ∨ ∃ rest, q = r :: rest) ∧ ∀ msg ∈ q, P msg
  | _          => True

/-- All messages, in the queue and seen there by a call about to return, satisfy `P`. -/
def AllMessages (P : Option M → Prop) (s : MessageQueue ι M) : Prop :=
  (∀ msg ∈ s.queue, P msg) ∧ ∀ i, Returned P (s.pc i)

omit [Fintype ι] in
theorem AllMessages.setPc {P : Option M → Prop} {s : MessageQueue ι M} (h : s.AllMessages P) (i : ι) {p : QueuePc M}
    (hp : Returned P p) : (s.setPc i p).AllMessages P :=
  ⟨h.1, (Function.forall_update_iff s.pc (fun _ p => Returned P p)).2 ⟨hp, fun j _ => h.2 j⟩⟩

omit [Fintype ι] in
theorem AllMessages.popAndReturn {P : Option M → Prop} {s : MessageQueue ι M} (h : s.AllMessages P) (i : ι)
    {c : PopCall} (hc : s.queue ≠ [] ∨ c ≠ .wait) : (s.popAndReturn i c).AllMessages P := by
  have hret : Returned P (.ret c (pop s.queue).1 s.queue) := by
    refine ⟨?_, h.1⟩
    cases hq : s.queue with
    | nil => exact .inl ⟨rfl, rfl, hc.resolve_left (fun hn => hn hq)⟩
    | cons msg rest => exact .inr ⟨rest, rfl⟩
  refine ⟨fun msg hm => h.1 msg ?_, (h.setPc i hret).2⟩
  have hm : msg ∈ (pop s.queue).2 := hm
  cases hq : s.queue with
  | nil => rw [hq] at hm; cases hm
  | cons front rest => rw [hq] at hm; exact List.mem_cons_of_mem _ hm

omit [Fintype ι] in
theorem AllMessages.check {P : Option M → Prop} {s : MessageQueue ι M} (h : s.AllMessages P) (i : ι) (c : PopCall)
    (timedOut : Bool) : (s.check i c timedOut).AllMessages P := by
  unfold MessageQueue.check
  split
  · rename_i he
    have hq : s.queue = [] := List.isEmpty_iff.1 he
    split
    · exact h.popAndReturn i (.inr nofun)
    · exact h.setPc i ⟨.inl ⟨hq, rfl, nofun⟩, h.1⟩
    · exact h.setPc i trivial
  · rename_i hne
    exact h.popAndReturn i (.inl (fun hq => hne (List.isEmpty_iff.2 hq)))

theorem AllMessages.step {P : Option M → Prop} {s t : MessageQueue ι M} {a : QueueAct ι M} (h : s.AllMessages P)
    (hpush : ∀ i msg, a = .push i msg → P msg) (hst : s.step a = some t) : t.AllMessages P := by
  rcases step_cases hst with ⟨i, msg, ha, -, rfl⟩ | ⟨i, j, c, -, -, -, rfl⟩ | ⟨i, -, -, -, rfl⟩ |
    ⟨i, c, timedOut, -, rfl⟩ | ⟨j, c, -, -, rfl⟩ | ⟨i, -, rfl⟩ | ⟨i, c, msg, seen, -, -, rfl⟩
  · refine ⟨fun m hm => ?_, (h.setPc i (p := .notify) trivial).2⟩
    rcases List.mem_append.1 hm with hm | hm
    · exact h.1 m hm
    · rw [List.mem_singleton.1 hm]; exact hpush i msg ha
  · exact (h.setPc i (p := .idle) trivial).setPc j trivial
  · exact h.setPc i trivial
  · exact h.check i c timedOut
  · exact h.setPc j trivial
  · exact ⟨fun m hm => (by cases hm), h.2⟩
  · exact h.setPc i trivial

theorem allMessages_init (P : Option M → Prop) : (machine ι M).init.AllMessages P :=
  ⟨fun m hm => (by cases hm), fun _ => trivial⟩

def pushesNonNull (_ : MessageQueue ι M) : QueueAct ι M → Bool
  | .push _ msg => msg.isSome
  | _           => true

theorem allMessages_nonNull {s : MessageQueue ι M} (hs : ((machine ι M).only pushesNonNull).Reachable s) :
    s.AllMessages (fun msg => msg ≠ none) := by
  refine hs.only_invariant (allMessages_init _) (fun s a t hI hok hst => ?_)
  refine AllMessages.step (s := s) hI (fun i msg ha => ?_) hst
  rw [ha] at hok
  exact Option.isSome_iff_ne_none.1 hok

/-- **One `notify_one` a push is enough, and what the waits return.**  Any number of threads, in any interleaving with
spurious wake-ups, timeouts and clears: when no push is short of its `notify_one` and no woken thread short of its
check, a thread is blocked only on an empty queue.  A `wait_for` returns null only if the queue was empty at its last
check or had a null pointer in front; while only messages that are there are pushed, only the first, and `wait` returns
no null. -/
theorem messageQueue_waits (ι M : Type) [DecidableEq ι] [Fintype ι] :
    (∀ s, (machine ι M).Reachable s → (∀ i, s.pc i ≠ .notify) → (∀ i c, s.pc i ≠ .woken c) → s.queue ≠ [] →
      ∀ i c, s.pc i ≠ .blocked c) ∧
    (∀ s, (machine ι M).Reachable s → ∀ i q, s.pc i = .ret .waitFor none q → q = [] ∨ q.head? = some none) ∧
    (∀ s, ((machine ι M).only pushesNonNull).Reachable s → ∀ i q,
      (s.pc i = .ret .waitFor none q → q = []) ∧ s.pc i ≠ .ret .wait none q) := by
  refine ⟨?_, ?_, ?_⟩
  · intro s hs hn hw hq i c hi
    have hle := covered hs ⟨i, by rw [hi]; rfl⟩
    have hzero : tally busy s.pc = 0 := by
      refine tally_eq_zero (fun j => ?_)
      cases hj : s.pc j with
      | notify => exact absurd hj (hn j)
      | woken c => exact absurd hj (hw j c)
      | _ => rfl
    have := List.length_pos_iff.2 hq
    omega
  · intro s hs i q hi
    have hall : s.AllMessages (fun _ => True) :=
      hs.invariant (allMessages_init _) (fun s _ _ hI hst => AllMessages.step (s := s) hI (fun _ _ _ => trivial) hst)
    have hret := hall.2 i
    rw [hi] at hret
    rcases hret.1 with ⟨hq, -, -⟩ | ⟨rest, hq⟩
    · exact .inl hq
    · exact .inr (by rw [hq]; rfl)
  · intro s hs i q
    have hall := allMessages_nonNull hs
    -- a null result out of a queue of messages that are there comes from the empty queue
    have hnull : ∀ c, s.pc i = .ret c none q → q = [] ∧ c ≠ .wait := by
      intro c hi
      have hret := hall.2 i
      rw [hi] at hret
      rcases hret.1 with ⟨hq, -, hc⟩ | ⟨rest, hq⟩
      · exact ⟨hq, hc⟩
      · exact absurd rfl (hret.2 none (by rw [hq]; exact List.mem_cons_self))
    exact ⟨fun hi => (hnull _ hi).1, fun hi => (hnull _ hi).2 rfl⟩

/-- A thread blocked in `wait`, woken by the first of two pushes: nobody is left blocked beside the second message. -/
theorem messageQueue_waits_two : ∃ s : MessageQueue (Fin 2) Nat, s.queue = [some 6] ∧
    s.pc 0 = .ret .wait (some 5) [some 5, some 6] ∧ (∀ i c, s.pc i ≠ .blocked c) ∧
    ∀ q, s.pc 0 ≠ .ret .wait none q := by
  obtain ⟨s, hrun⟩ : ∃ s, ((machine (Fin 2) Nat).only pushesNonNull).runFrom
      ((machine (Fin 2) Nat).only pushesNonNull).init
      [.call 0 .wait, .push 1 (some 5), .notifyOne 1 (some 0), .push 1 (some 6), .notifyOne 1 none,
       .recheck 0 false] = some s := ⟨_, rfl⟩
  have hs := Machine.reachable_of_run _ hrun
  have hq : s.queue = [some 6] := by cases hrun; rfl
  have h0 : s.pc 0 = .ret .wait (some 5) [some 5, some 6] := by cases hrun; rfl
  have h1 : s.pc 1 = .idle := by cases hrun; rfl
  obtain ⟨hwake, -, hnull⟩ := messageQueue_waits (Fin 2) Nat
  refine ⟨s, hq, h0, hwake s hs.of_only ?_ ?_ (by rw [hq]; exact List.cons_ne_nil _ _), fun q => (hnull s hs 0 q).2⟩
  · intro i
    match i with
    | 0 => rw [h0]; exact nofun
    | 1 => rw [h1]; exact nofun
  · intro i c
    match i with
    | 0 => rw [h0]; exact nofun
    | 1 => rw [h1]; exact nofun

/-- **A pushed null pointer makes `wait_for` return empty from a queue that is not.** -/
theorem waitFor_null : ¬ ∀ s : MessageQueue (Fin 1) Nat, (machine (Fin 1) Nat).Reachable s →
    ∀ i q, s.pc i = .ret .waitFor none q → q = [] := by
  intro hall
  obtain ⟨s, hrun⟩ : ∃ s, (machine (Fin 1) Nat).runFrom (machine (Fin 1) Nat).init
      [.push 0 none, .notifyOne 0 none, .call 0 .waitFor] = some s := ⟨_, rfl⟩
  have hs := Machine.reachable_of_run _ hrun
  have h0 : s.pc 0 = .ret .waitFor none [none] := by cases hrun; rfl
  have := hall s hs 0 _ h0
  cases this

/-! ## How the threads move -/

/-- **A thread's move at a push, a notification, a wake-up or a clear.** -/
inductive Shifts : QueuePc M → QueuePc M → Prop
  | stays (p : QueuePc M) : Shifts p p
  | pushes                : Shifts .idle .notify
  | notifies              : Shifts .notify .idle
  | wakes (c : PopCall)   : Shifts (.blocked c) (.woken c)

theorem Shifts.isBlocked {p p' : QueuePc M} (h : Shifts p p') (hb : MessageQueue.isBlocked p' = true) :
    MessageQueue.isBlocked p = true := by
  cases h <;> first | exact hb | cases hb

/-- The steps of `try_pop`, `wait` and `wait_for`. -/
def popping : QueueAct ι M → Bool
  | .call _ _    => true
  | .recheck _ _ => true
  | .ret _       => true
  | _            => false

/-- The steps that neither add a message nor take one. -/
def keepsQueue : QueueAct ι M → Bool
  | .notifyOne _ _ => true
  | .wake _        => true
  | .ret _         => true
  | _              => false

omit [Fintype ι] in
theorem shifts_update {f : ι → QueuePc M} {i : ι} {p : QueuePc M} (h : Shifts (f i) p) (j : ι) :
    Shifts (f j) (Function.update f i p j) := by
  by_cases hj : j = i
  · rw [hj, Function.update_self]; exact h
  · rw [Function.update_of_ne hj]; exact .stays _

theorem shifts_step {s t : MessageQueue ι M} {a : QueueAct ι M} (ha : popping a = false) (hst : s.step a = some t)
    (j : ι) : Shifts (s.pc j) (t.pc j) := by
  rcases step_cases hst with ⟨i, msg, -, hi, rfl⟩ | ⟨i, k, c, -, hi, hk, rfl⟩ | ⟨i, -, hi, -, rfl⟩ |
    ⟨i, c, timedOut, ⟨rfl, -⟩ | ⟨rfl, -⟩, rfl⟩ | ⟨k, c, -, hk, rfl⟩ | ⟨i, -, rfl⟩ | ⟨i, c, msg, seen, rfl, -, rfl⟩
  · exact shifts_update (by rw [hi]; exact .pushes) j
  · have hki : k ≠ i := fun he => by rw [he, hi] at hk; cases hk
    by_cases hj : j = k
    · simp only [setPc, hj, Function.update_self]
      rw [hk]; exact .wakes c
    · simp only [setPc, Function.update_of_ne hj]
      exact shifts_update (by rw [hi]; exact .notifies) j
  · exact shifts_update (by rw [hi]; exact .notifies) j
  · cases ha
  · cases ha
  · exact shifts_update (by rw [hk]; exact .wakes c) j
  · exact .stays _
  · cases ha

theorem queue_step {s t : MessageQueue ι M} {a : QueueAct ι M} (ha : keepsQueue a = true) (hst : s.step a = some t) :
    t.queue = s.queue := by
  rcases step_cases hst with ⟨i, msg, rfl, -, rfl⟩ | ⟨i, k, c, -, -, -, rfl⟩ | ⟨i, -, -, -, rfl⟩ |
    ⟨i, c, timedOut, ⟨rfl, -⟩ | ⟨rfl, -⟩, rfl⟩ | ⟨k, c, -, -, rfl⟩ | ⟨i, rfl, rfl⟩ | ⟨i, c, msg, seen, -, -, rfl⟩
  · cases ha
  · rfl
  · rfl
  · cases ha
  · cases ha
  · rfl
  · cases ha
  · rfl

theorem push_queue {s t : MessageQueue ι M} {i : ι} {msg : Option M} (hst : s.step (.push i msg) = some t) :
    t.queue = s.queue ++ [msg] := by
  simp only [step] at hst
  split at hst
  · cases hst; rfl
  · cases hst

/-! ## What is in the queue and in the consumers' hands -/

def result : QueuePc M → Option M
  | .ret _ r _ => r
  | _          => none

def contents (s : MessageQueue ι M) : List M := s.queue.filterMap id

section Flow

omit [Fintype ι]

/-- **A check moves the front message from the queue into the thread's hand**, or nothing. -/
theorem check_flow (s : MessageQueue ι M) (i : ι) (c : PopCall) (timedOut : Bool) :
    (result ((s.check i c timedOut).pc i)).toList ++ (s.check i c timedOut).contents = s.contents ∧
      ∀ j, j ≠ i → (s.check i c timedOut).pc j = s.pc j := by
  have hpop : ∀ c, (result ((s.popAndReturn i c).pc i)).toList ++ (s.popAndReturn i c).contents = s.contents := by
    intro c
    show (result (Function.update s.pc i _ i)).toList ++ (pop s.queue).2.filterMap id = s.queue.filterMap id
    rw [Function.update_self]
    cases hq : s.queue with
    | nil => rfl
    | cons msg q => cases msg <;> rfl
  have hset : ∀ {p : QueuePc M}, result p = none →
      (result ((s.setPc i p).pc i)).toList ++ (s.setPc i p).contents = s.contents := by
    intro p hp
    show (result (Function.update s.pc i p i)).toList ++ s.contents = s.contents
    rw [Function.update_self, hp]; rfl
  unfold check
  split
  · split
    · exact ⟨hpop _, fun j hj => Function.update_of_ne hj ..⟩
    · exact ⟨hset rfl, fun j hj => Function.update_of_ne hj ..⟩
    · exact ⟨hset rfl, fun j hj => Function.update_of_ne hj ..⟩
  · exact ⟨hpop _, fun j hj => Function.update_of_ne hj ..⟩

end Flow

theorem Shifts.result {p p' : QueuePc M} (h : Shifts p p') : MessageQueue.result p' = MessageQueue.result p := by
  cases h <;> rfl

theorem push_flow {s t : MessageQueue ι M} {i : ι} {msg : Option M} (hst : s.step (.push i msg) = some t) :
    t.contents = s.contents ++ msg.toList ∧ ∀ j, result (t.pc j) = result (s.pc j) := by
  refine ⟨?_, fun j => (shifts_step rfl hst j).result⟩
  unfold contents
  rw [push_queue hst, List.filterMap_append]
  cases msg <;> rfl

/-- A notification, and a wake-up without one, move no message. -/
theorem notify_flow {s t : MessageQueue ι M} {a : QueueAct ι M} (hpop : popping a = false) (hkeep : keepsQueue a = true)
    (hst : s.step a = some t) : t.contents = s.contents ∧ ∀ j, result (t.pc j) = result (s.pc j) := by
  refine ⟨?_, fun j => (shifts_step hpop hst j).result⟩
  unfold contents
  rw [queue_step hkeep hst]

theorem ret_flow {s t : MessageQueue ι M} {i : ι} (hst : s.step (.ret i) = some t) :
    t.contents = s.contents ∧ result (t.pc i) = none := by
  simp only [step] at hst
  split at hst
  · cases hst
    refine ⟨rfl, ?_⟩
    show result (Function.update s.pc i .idle i) = none
    rw [Function.update_self]; rfl
  · cases hst

end MessageQueue
end ThreadMessaging

import Mathlib.Data.Fintype.Option
import ThreadMessaging.Linearizable
import ThreadMessaging.MessageQueue
import ThreadMessaging.ThreadSafeQueue
/-!
# The two queues, seen from outside

Whatever the threads of a `MessageQueue` or of a `ThreadSafeQueue` do, their calls and returns are those of a plain FIFO
queue used by one call at a time: every history of either is `Linearizable`.  A call takes effect in its last stay in
the mutex; a `wait` has none on an empty queue, and a `waitPop` on an empty one only once the stop flag is set.
-/
namespace ThreadMessaging

namespace MessageQueue

inductive QueueOp (M : Type)
  | push (msg : Option M)
  | pop (c : PopCall)
  | clear
  deriving DecidableEq, Repr

/-- A queue used by one call at a time; `wait` waits for a message. -/
def fifo (M : Type) : SeqObject (List (Option M)) (QueueOp M) (Option M) where
  init := []
  apply q op :=
    match op, q with
    | .push msg, q      => some (q ++ [msg], none)
    | .pop .wait, []    => none
    | .pop _, []        => some ([], none)
    | .pop _, msg :: q  => some (q, msg)
    | .clear, _         => some ([], none)

variable {ι M : Type} [DecidableEq ι]

/-- What a step shows to the callers. -/
def shows (s : MessageQueue ι M) : QueueAct ι M → List (CallEvent ι (QueueOp M) (Option M))
  | .push i msg    => [.call i (.push msg)]
  | .notifyOne i _ => [.ret i none]
  | .call i c      => [.call i (.pop c)]
  | .clear i       => [.call i .clear, .ret i none]
  | .ret i         => [.ret i (result (s.pc i))]
  | _              => []

/-- Where the thread of a FIFO queue stands at this place. -/
def Stands : QueuePc M → CallPc (QueueOp M) (Option M) → Prop
  | .idle, p       => p = .idle
  | .notify, p     => ∃ msg, p = .done (.push msg) none
  | .blocked c, p  => p = .called (.pop c)
  | .woken c, p    => p = .called (.pop c)
  | .ret c r _, p  => p = .done (.pop c) r

/-- **The FIFO queue that a `MessageQueue` is like.** -/
structure Like (s : MessageQueue ι M) (t : Locked (List (Option M)) ι (QueueOp M) (Option M)) : Prop where
  queue   : t.state = s.queue
  threads : ∀ i, Stands (s.pc i) (t.pc i)

theorem Like.update {s s' : MessageQueue ι M} {t t' : Locked (List (Option M)) ι (QueueOp M) (Option M)} (h : s.Like t)
    {i : ι} {p : QueuePc M} {p' : CallPc (QueueOp M) (Option M)} (hp : Stands p p')
    (hpc : s'.pc = Function.update s.pc i p) (hpc' : t'.pc = Function.update t.pc i p') (hq : t'.state = s'.queue) :
    s'.Like t' := by
  refine ⟨hq, fun j => ?_⟩
  rw [hpc, hpc']
  by_cases hj : j = i
  · subst hj
    rw [Function.update_self, Function.update_self]
    exact hp
  · rw [Function.update_of_ne hj, Function.update_of_ne hj]
    exact h.threads j

/-- A thread that goes on waiting. -/
theorem Like.waits {s : MessageQueue ι M} {t : Locked (List (Option M)) ι (QueueOp M) (Option M)} (h : s.Like t)
    {i : ι} {c : PopCall} {p : QueuePc M} (ht : t.pc i = .called (.pop c)) (hp : Stands p (.called (.pop c))) :
    (s.setPc i p).Like t := by
  refine h.update hp rfl ?_ h.queue
  rw [← ht, Function.update_eq_self]

theorem Like.notifies {s : MessageQueue ι M} {t : Locked (List (Option M)) ι (QueueOp M) (Option M)} (h : s.Like t)
    {i : ι} (hi : s.pc i = .notify) :
    ∃ t', Locked.Follows (fifo M) t [.ret i none] t' ∧ (s.setPc i .idle).Like t' := by
  have ht := h.threads i
  rw [hi] at ht
  obtain ⟨msg, ht⟩ := ht
  obtain ⟨t', hf, hq, hpc⟩ := Locked.follows_ret (Q := fifo M) ht
  exact ⟨t', hf, h.update (p := .idle) rfl rfl hpc (hq.trans h.queue)⟩

/-- **A check has the effect of the call, or blocks.** -/
theorem check_apply (s : MessageQueue ι M) (i : ι) (c : PopCall) (timedOut : Bool) :
    (∃ q r, (fifo M).apply s.queue (.pop c) = some (q, r) ∧
      s.check i c timedOut = { queue := q, pc := Function.update s.pc i (.ret c r s.queue) }) ∨
    s.check i c timedOut = s.setPc i (.blocked c) := by
  obtain ⟨queue, pc⟩ := s
  cases queue with
  | nil =>
    cases c with
    | tryPop => exact .inl ⟨[], none, rfl, rfl⟩
    | wait => exact .inr rfl
    | waitFor =>
      cases timedOut with
      | false => exact .inr rfl
      | true => exact .inl ⟨[], none, rfl, rfl⟩
  | cons msg q =>
    left
    refine ⟨q, msg, ?_, rfl⟩
    cases c <;> rfl

/-- A check at a call. -/
theorem Like.call {s : MessageQueue ι M} {t : Locked (List (Option M)) ι (QueueOp M) (Option M)} (h : s.Like t)
    {i : ι} (hi : s.pc i = .idle) (c : PopCall) (timedOut : Bool) :
    ∃ t', Locked.Follows (fifo M) t [.call i (.pop c)] t' ∧ (s.check i c timedOut).Like t' := by
  have ht := h.threads i
  rw [hi] at ht
  rcases s.check_apply i c timedOut with ⟨q, r, happ, heq⟩ | heq
  · rw [← h.queue] at happ
    obtain ⟨t', hf, hq, hpc⟩ := Locked.follows_callEffect _ ht happ
    rw [heq]
    exact ⟨t', hf, h.update (p := .ret c r s.queue) rfl rfl hpc hq⟩
  · obtain ⟨t', hf, hq, hpc⟩ := Locked.follows_call (Q := fifo M) (.pop c) ht
    rw [heq]
    exact ⟨t', hf, h.update (p := .blocked c) rfl rfl hpc (hq.trans h.queue)⟩

/-- A check after a wake-up. -/
theorem Like.recheck {s : MessageQueue ι M} {t : Locked (List (Option M)) ι (QueueOp M) (Option M)} (h : s.Like t)
    {i : ι} {c : PopCall} (hi : s.pc i = .woken c) (timedOut : Bool) :
    ∃ t', Locked.Follows (fifo M) t [] t' ∧ (s.check i c timedOut).Like t' := by
  have ht := h.threads i
  rw [hi] at ht
  rcases s.check_apply i c timedOut with ⟨q, r, happ, heq⟩ | heq
  · rw [← h.queue] at happ
    obtain ⟨t', hf, hq, hpc⟩ := Locked.follows_effect ht happ
    rw [heq]
    exact ⟨t', hf, h.update (p := .ret c r s.queue) rfl rfl hpc hq⟩
  · rw [heq]
    exact ⟨t, .refl t, h.waits (p := .blocked c) ht rfl⟩

variable [Fintype ι]

/-- **The FIFO queue can follow each step**, with the same calls and returns. -/
theorem Like.follows {s s' : MessageQueue ι M} {t : Locked (List (Option M)) ι (QueueOp M) (Option M)} (h : s.Like t)
    {a : QueueAct ι M} (hst : s.step a = some s') :
    ∃ t', Locked.Follows (fifo M) t (s.shows a) t' ∧ s'.Like t' := by
  rcases step_cases hst with ⟨i, msg, rfl, hi, rfl⟩ | ⟨i, j, c, rfl, hi, hj, rfl⟩ | ⟨i, rfl, hi, -, rfl⟩ |
    ⟨i, c, timedOut, hact, rfl⟩ | ⟨j, c, rfl, hj, rfl⟩ | ⟨i, rfl, rfl⟩ | ⟨i, c, msg, seen, rfl, hi, rfl⟩
  · have ht := h.threads i
    rw [hi] at ht
    obtain ⟨t', hf, hq, hpc⟩ := Locked.follows_callEffect (Q := fifo M) (.push msg) ht rfl
    exact ⟨t', hf, h.update (p := .notify) ⟨msg, rfl⟩ rfl hpc (by rw [hq, h.queue])⟩
  · obtain ⟨t', hf, hret⟩ := h.notifies hi
    have hij : j ≠ i := fun he => by rw [he, hi] at hj; cases hj
    -- the woken thread goes on waiting
    have hwait := hret.threads j
    rw [show (s.setPc i .idle).pc j = .blocked c from (Function.update_of_ne hij ..).trans hj] at hwait
    exact ⟨t', hf, hret.waits (p := .woken c) hwait rfl⟩
  · exact h.notifies hi
  · rcases hact with ⟨rfl, rfl⟩ | ⟨rfl, hi⟩
    · simp only [step] at hst
      split at hst
      · rename_i hi
        exact h.call hi c false
      · cases hst
    · exact h.recheck hi timedOut
  · have ht := h.threads j
    rw [hj] at ht
    exact ⟨t, .refl t, h.waits (p := .woken c) ht rfl⟩
  · simp only [step] at hst
    split at hst
    · rename_i hi
      have ht := h.threads i
      rw [hi] at ht
      obtain ⟨t', hf, hq, hpc⟩ := Locked.follows_whole (Q := fifo M) .clear ht rfl
      exact ⟨t', hf, ⟨hq, fun j => by rw [hpc]; exact h.threads j⟩⟩
    · cases hst
  · have ht := h.threads i
    rw [hi] at ht
    obtain ⟨t', hf, hq, hpc⟩ := Locked.follows_ret (Q := fifo M) ht
    simp only [shows, hi]
    exact ⟨t', hf, h.update (p := .idle) rfl rfl hpc (hq.trans h.queue)⟩

omit [DecidableEq ι] [Fintype ι] in
/-- A FIFO queue gives out each message once. -/
theorem fifo_count [DecidableEq M] (m : M) {q q' : List (Option M)} {es : List (Effect ι (QueueOp M) (Option M))}
    (h : (fifo M).replay q es = some q') :
    es.countP (fun e => e.answer = some m) + q'.count (some m) ≤
      q.count (some m) + es.countP (fun e => e.op = .push (some m)) := by
  induction es generalizing q with
  | nil =>
    obtain rfl := Option.some.inj h
    simp
  | cons e es ih =>
    simp only [SeqObject.replay] at h
    split at h
    · rename_i r answer happ
      split at h
      · rename_i hans
        have hrest := ih h
        rw [List.countP_cons, List.countP_cons, ← hans]
        cases hop : e.op with
        | push msg =>
          rw [hop] at happ
          cases happ
          simp only [List.count_append, List.count_singleton] at hrest
          simp only [QueueOp.push.injEq]
          grind
        | clear =>
          rw [hop] at happ
          cases happ
          simp at hrest ⊢
          omega
        | pop c =>
          rw [hop] at happ
          cases q with
          | nil => cases c <;> cases happ <;> simpa using hrest
          | cons msg q =>
            have happ : (q, msg) = (r, answer) := by cases c <;> exact Option.some.inj happ
            cases happ
            rw [List.count_cons]
            simp
            grind
      · cases h
    · cases h

/-- **A `MessageQueue` is linearizable**: any number of threads, in any interleaving with spurious wake-ups, timeouts
and clears, call it and are answered as if it were a FIFO queue used by one call at a time.  So calls have returned a
message no more often than it has been pushed. -/
theorem messageQueue_linearizable [DecidableEq M] {s : MessageQueue ι M}
    {h : List (CallEvent ι (QueueOp M) (Option M))}
    (hs : ((machine ι M).withHistory [] (fun h s a _ => h ++ s.shows a)).Reachable (s, h)) :
    Linearizable (fifo M) h ∧
    ∀ m, h.countP (returnsWith (fun r => r = some m)) ≤ h.countP (callsWith (fun op => op = .push (some m))) := by
  have hinit : (machine ι M).init.Like (Locked.machine (fifo M)).init := ⟨rfl, fun _ => rfl⟩
  have hl : Linearizable (fifo M) h := linearizable_of_simulation hinit (fun _ _ _ _ _ hR hst => hR.follows hst) hs
  refine ⟨hl, fun m => hl.countP_le _ _ (fun es q hes => ?_)⟩
  have hcount := fifo_count m hes
  simp only [fifo, List.count_nil] at hcount
  omega

/-- A `wait` called before the push that it is answered with. -/
theorem messageQueue_linearizable_woken : Linearizable (fifo Nat)
    [.call (0 : Fin 2) (.pop .wait), .call 1 (.push (some 5)), .ret 1 none, .ret 0 (some 5)] := by
  obtain ⟨p, hrun⟩ : ∃ p, ((machine (Fin 2) Nat).withHistory [] (fun h s a _ => h ++ s.shows a)).runFrom
      ((machine (Fin 2) Nat).withHistory [] (fun h s a _ => h ++ s.shows a)).init
      [.call 0 .wait, .push 1 (some 5), .notifyOne 1 (some 0), .recheck 0 false, .ret 0] = some p := ⟨_, rfl⟩
  have hh : p.2 = [.call 0 (.pop .wait), .call 1 (.push (some 5)), .ret 1 none, .ret 0 (some 5)] := by
    cases hrun; rfl
  rw [← hh]
  exact (messageQueue_linearizable (s := p.1) (Machine.reachable_of_run _ hrun)).1

end MessageQueue

namespace ThreadSafeQueue

inductive SafeQueueOp (T : Type)
  | push (value : T)
  | tryPop
  | waitPop
  | setStop
  deriving DecidableEq, Repr

/-- A queue used by one call at a time, beside a stop flag; `waitPop` waits for a value or the flag. -/
def stoppable (T : Type) : SeqObject (List T × Bool) (SafeQueueOp T) (Option T) where
  init := ([], false)
  apply s op :=
    match op, s with
    | .push value, (q, stop)  => some ((q ++ [value], stop), none)
    | .tryPop, (q, stop)      => some ((q.tail, stop), q.head?)
    | .waitPop, ([], false)   => none
    | .waitPop, (q, stop)     => some ((q.tail, stop), q.head?)
    | .setStop, (q, _)        => some ((q, true), none)

variable {ι T : Type} [DecidableEq ι]

/-- What `tryPop` and `waitPop` are about to return. -/
def returning : SafeQueuePc T → Option T
  | .ret value => value
  | _          => none

/-- What a step shows to the callers; `none` is whoever sets the flag. -/
def shows (s : ThreadSafeQueue ι T) : SafeQueueAct ι T → List (CallEvent (Option ι) (SafeQueueOp T) (Option T))
  | .push i value  => [.call (some i) (.push value)]
  | .notifyOne i _ => [.ret (some i) none]
  | .tryPop i      => [.call (some i) .tryPop]
  | .waitPop i     => [.call (some i) .waitPop]
  | .ret i         => [.ret (some i) (returning (s.pc i))]
  | .setStop       => [.call none .setStop, .ret none none]
  | _              => []

/-- Where the thread of such a queue stands at this place. -/
def Stands : SafeQueuePc T → CallPc (SafeQueueOp T) (Option T) → Prop
  | .idle, p      => p = .idle
  | .notify, p    => ∃ value, p = .done (.push value) none
  | .block, p     => p = .called .waitPop
  | .blocked, p   => p = .called .waitPop
  | .woken, p     => p = .called .waitPop
  | .ret value, p => ∃ op, p = .done op value

/-- **The queue with a stop flag that a `ThreadSafeQueue` is like.** -/
structure Like (s : ThreadSafeQueue ι T) (t : Locked (List T × Bool) (Option ι) (SafeQueueOp T) (Option T)) :
    Prop where
  state   : t.state = (s.queue, s.stop)
  stopper : t.pc none = .idle
  threads : ∀ i, Stands (s.pc i) (t.pc (some i))

theorem Like.update {s s' : ThreadSafeQueue ι T} {t t' : Locked (List T × Bool) (Option ι) (SafeQueueOp T) (Option T)}
    (h : s.Like t) {i : ι} {p : SafeQueuePc T} {p' : CallPc (SafeQueueOp T) (Option T)} (hp : Stands p p')
    (hpc : s'.pc = Function.update s.pc i p) (hpc' : t'.pc = Function.update t.pc (some i) p')
    (hstate : t'.state = (s'.queue, s'.stop)) : s'.Like t' := by
  refine ⟨hstate, ?_, fun j => ?_⟩
  · rw [hpc', Function.update_of_ne (Option.some_ne_none i).symm]
    exact h.stopper
  · rw [hpc, hpc']
    by_cases hj : j = i
    · subst hj
      rw [Function.update_self, Function.update_self]
      exact hp
    · rw [Function.update_of_ne hj, Function.update_of_ne (fun he => hj (Option.some.inj he))]
      exact h.threads j

/-- A thread that goes on waiting. -/
theorem Like.waits {s s' : ThreadSafeQueue ι T} {t : Locked (List T × Bool) (Option ι) (SafeQueueOp T) (Option T)}
    (h : s.Like t) {i : ι} {p : SafeQueuePc T} (ht : t.pc (some i) = .called .waitPop)
    (hp : Stands p (.called .waitPop)) (hpc : s'.pc = Function.update s.pc i p)
    (hstate : (s'.queue, s'.stop) = (s.queue, s.stop)) : s'.Like t := by
  refine h.update hp hpc ?_ (h.state.trans hstate.symm)
  rw [← ht, Function.update_eq_self]

theorem Like.notifies {s : ThreadSafeQueue ι T} {t : Locked (List T × Bool) (Option ι) (SafeQueueOp T) (Option T)}
    (h : s.Like t) {i : ι} (hi : s.pc i = .notify) :
    ∃ t', Locked.Follows (stoppable T) t [.ret (some i) none] t' ∧ (s.setPc i .idle).Like t' := by
  have ht := h.threads i
  rw [hi] at ht
  obtain ⟨value, ht⟩ := ht
  obtain ⟨t', hf, hq, hpc⟩ := Locked.follows_ret (Q := stoppable T) ht
  exact ⟨t', hf, h.update (p := .idle) rfl rfl hpc (hq.trans h.state)⟩

/-- **A check of `waitPop` has its effect, or goes on to block.** -/
theorem check_apply (s : ThreadSafeQueue ι T) (i : ι) :
    ((stoppable T).apply (s.queue, s.stop) .waitPop = some ((s.queue.tail, s.stop), s.queue.head?) ∧
      s.check i = s.popAndReturn i) ∨
    s.check i = { s.setPc i .block with mutex := some i } := by
  obtain ⟨queue, mutex, stop, pc⟩ := s
  cases queue with
  | nil =>
    cases stop with
    | false => exact .inr rfl
    | true => exact .inl ⟨rfl, rfl⟩
  | cons value q => exact .inl ⟨rfl, rfl⟩

variable [Fintype ι]

/-- **The queue with a stop flag can follow each step**, with the same calls and returns. -/
theorem Like.follows {s s' : ThreadSafeQueue ι T}
    {t : Locked (List T × Bool) (Option ι) (SafeQueueOp T) (Option T)} (h : s.Like t) {a : SafeQueueAct ι T}
    (hst : s.step a = some s') : ∃ t', Locked.Follows (stoppable T) t (s.shows a) t' ∧ s'.Like t' := by
  have hstate := h.state
  cases a with
  | push i value =>
    simp only [step] at hst
    split at hst
    · rename_i hi hm
      cases hst
      have ht := h.threads i
      rw [hi] at ht
      obtain ⟨t', hf, hq, hpc⟩ := Locked.follows_callEffect (Q := stoppable T) (.push value) ht
        (by rw [hstate]; rfl)
      exact ⟨t', hf, h.update (p := .notify) ⟨value, rfl⟩ rfl hpc hq⟩
    · cases hst
  | notifyOne i target =>
    cases target with
    | none =>
      simp only [step] at hst
      split at hst
      · rename_i hi
        split at hst
        · cases hst
          exact h.notifies hi
        · cases hst
      · cases hst
    | some j =>
      simp only [step] at hst
      split at hst
      · rename_i hi hj
        cases hst
        obtain ⟨t', hf, hret⟩ := h.notifies hi
        have hij : j ≠ i := fun he => by rw [he, hi] at hj; cases hj
        have hwait := hret.threads j
        rw [show (s.setPc i .idle).pc j = .blocked from (Function.update_of_ne hij ..).trans hj] at hwait
        exact ⟨t', hf, hret.waits (p := .woken) hwait rfl rfl rfl⟩
      · cases hst
  | tryPop i =>
    simp only [step] at hst
    split at hst
    · rename_i hi hm
      cases hst
      have ht := h.threads i
      rw [hi] at ht
      obtain ⟨t', hf, hq, hpc⟩ := Locked.follows_callEffect (Q := stoppable T) .tryPop ht
        (by rw [hstate]; rfl)
      exact ⟨t', hf, h.update (p := .ret s.queue.head?) ⟨_, rfl⟩ rfl hpc hq⟩
    · cases hst
  | waitPop i =>
    simp only [step] at hst
    split at hst
    · rename_i hi hm
      cases hst
      have ht := h.threads i
      rw [hi] at ht
      rcases s.check_apply i with ⟨happ, heq⟩ | heq
      · rw [← hstate] at happ
        obtain ⟨t', hf, hq, hpc⟩ := Locked.follows_callEffect _ ht happ
        rw [heq]
        exact ⟨t', hf, h.update (p := .ret s.queue.head?) ⟨_, rfl⟩ rfl hpc hq⟩
      · obtain ⟨t', hf, hq, hpc⟩ := Locked.follows_call (Q := stoppable T) .waitPop ht
        rw [heq]
        exact ⟨t', hf, h.update (p := .block) rfl rfl hpc (hq.trans hstate)⟩
    · cases hst
  | block i =>
    simp only [step] at hst
    split at hst
    · rename_i hi
      cases hst
      have ht := h.threads i
      rw [hi] at ht
      exact ⟨t, .refl t, h.waits (p := .blocked) ht rfl rfl rfl⟩
    · cases hst
  | wake j =>
    simp only [step] at hst
    split at hst
    · rename_i hj
      cases hst
      have ht := h.threads j
      rw [hj] at ht
      exact ⟨t, .refl t, h.waits (p := .woken) ht rfl rfl rfl⟩
    · cases hst
  | recheck j =>
    simp only [step] at hst
    split at hst
    · rename_i hj hm
      cases hst
      have ht := h.threads j
      rw [hj] at ht
      rcases s.check_apply j with ⟨happ, heq⟩ | heq
      · rw [← hstate] at happ
        obtain ⟨t', hf, hq, hpc⟩ := Locked.follows_effect ht happ
        rw [heq]
        exact ⟨t', hf, h.update (p := .ret s.queue.head?) ⟨_, rfl⟩ rfl hpc hq⟩
      · rw [heq]
        exact ⟨t, .refl t, h.waits (p := .block) ht rfl rfl rfl⟩
    · cases hst
  | ret i =>
    simp only [step] at hst
    split at hst
    · rename_i value hi
      cases hst
      have ht := h.threads i
      rw [hi] at ht
      obtain ⟨op, ht⟩ := ht
      obtain ⟨t', hf, hq, hpc⟩ := Locked.follows_ret (Q := stoppable T) ht
      simp only [shows, hi]
      exact ⟨t', hf, h.update (p := .idle) rfl rfl hpc (hq.trans hstate)⟩
    · cases hst
  | setStop =>
    cases hst
    obtain ⟨t', hf, hq, hpc⟩ := Locked.follows_whole (Q := stoppable T) .setStop h.stopper
      (by rw [hstate]; rfl)
    exact ⟨t', hf, hq, by rw [hpc]; exact h.stopper, fun j => by rw [hpc]; exact h.threads j⟩

omit [DecidableEq ι] [Fintype ι] in
/-- What is given out has been pushed. -/
theorem stoppable_count [DecidableEq T] (value : T) {q q' : List T × Bool}
    {es : List (Effect (Option ι) (SafeQueueOp T) (Option T))} (h : (stoppable T).replay q es = some q') :
    es.countP (fun e => e.answer = some value) + q'.1.count value ≤
      q.1.count value + es.countP (fun e => e.op = .push value) := by
  induction es generalizing q with
  | nil =>
    obtain rfl := Option.some.inj h
    simp
  | cons e es ih =>
    simp only [SeqObject.replay] at h
    split at h
    · rename_i r answer happ
      split at h
      · rename_i hans
        have hrest := ih h
        rw [List.countP_cons, List.countP_cons, ← hans]
        obtain ⟨queue, stop⟩ := q
        cases hop : e.op with
        | push v =>
          rw [hop] at happ
          cases happ
          simp only [List.count_append, List.count_singleton] at hrest
          simp only [SafeQueueOp.push.injEq]
          grind
        | setStop =>
          rw [hop] at happ
          cases happ
          simpa using hrest
        | tryPop =>
          rw [hop] at happ
          cases happ
          cases queue with
          | nil => simpa using hrest
          | cons v queue =>
            rw [List.count_cons]
            simp at hrest ⊢
            grind
        | waitPop =>
          rw [hop] at happ
          cases queue with
          | nil =>
            cases stop with
            | false => cases happ
            | true => cases happ; simpa using hrest
          | cons v queue =>
            cases happ
            rw [List.count_cons]
            simp at hrest ⊢
            grind
      · cases h
    · cases h

/-- **A `ThreadSafeQueue` is linearizable**, with the stop flag that its predicate reads: any number of threads call it,
in any interleaving with spurious wake-ups and with whoever sets the flag, and are answered as if it were a queue with
a flag used by one call at a time.  So calls have returned a value no more often than it has been pushed. -/
theorem threadSafeQueue_linearizable [DecidableEq T] {s : ThreadSafeQueue ι T}
    {h : List (CallEvent (Option ι) (SafeQueueOp T) (Option T))}
    (hs : ((machine ι T).withHistory [] (fun h s a _ => h ++ s.shows a)).Reachable (s, h)) :
    Linearizable (stoppable T) h ∧
    ∀ value, h.countP (returnsWith (fun r => r = some value)) ≤ h.countP (callsWith (fun op => op = .push value)) := by
  have hinit : (machine ι T).init.Like (Locked.machine (stoppable T)).init := ⟨rfl, rfl, fun _ => rfl⟩
  have hl : Linearizable (stoppable T) h :=
    linearizable_of_simulation hinit (fun _ _ _ _ _ hR hst => hR.follows hst) hs
  refine ⟨hl, fun value => hl.countP_le _ _ (fun es q hes => ?_)⟩
  have hcount := stoppable_count value hes
  simp only [stoppable, List.count_nil] at hcount
  omega

/-- A `waitPop` that blocks, and is woken by nobody until the flag is set. -/
theorem threadSafeQueue_linearizable_stopped : Linearizable (stoppable Nat)
    [.call (some (0 : Fin 2)) .waitPop, .call none .setStop, .ret none none, .ret (some 0) none] := by
  obtain ⟨p, hrun⟩ : ∃ p, ((machine (Fin 2) Nat).withHistory [] (fun h s a _ => h ++ s.shows a)).runFrom
      ((machine (Fin 2) Nat).withHistory [] (fun h s a _ => h ++ s.shows a)).init
      [.waitPop 0, .block 0, .setStop, .wake 0, .recheck 0, .ret 0] = some p := ⟨_, rfl⟩
  have hh : p.2 = [.call (some 0) .waitPop, .call none .setStop, .ret none none, .ret (some 0) none] := by
    cases hrun; rfl
  rw [← hh]
  exact (threadSafeQueue_linearizable (s := p.1) (Machine.reachable_of_run _ hrun)).1

end ThreadSafeQueue
end ThreadMessaging

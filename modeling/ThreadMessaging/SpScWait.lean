import ThreadMessaging.SpScFifo
import ThreadMessaging.DataTypes
/-!
# The observer's command path: `sendCommand` against `wait_pop_for`

`ObserverIncomingThread::sendCommand` is a `push` and then, if it succeeded, a `notifyOne`; neither holds
`m_waitMutex`.  The observer's `wait_pop_for` takes `m_waitMutex`, evaluates the predicate `!m_initialized || !empty()`,
and either goes on to pop or releases the mutex and blocks on `m_waitCv` in one step; each wake-up re-acquires the mutex
and evaluates the predicate again, the one after a timeout for the last time (`condition_variable::wait_for` with a
predicate is `while (!pred()) if (wait_until(..) == timeout) return pred(); return true`).

The steps inside `push`, `pop` and `empty` are the ring buffer's own (`Spsc.step`), lagging loads included, so that
the ring of a reachable state is a reachable one (`reachable_ring`).

A wake-up can be lost: a push and its `notifyOne` that both fall between the predicate's load of `m_head` and the block
find nobody to wake.  `no_lostWakeup` is the other half: while no `notifyOne` falls there, and that load is not stale,
no wake-up is lost.
-/
namespace ThreadMessaging

inductive SenderPc
  | idle
  | push
  | notify
  | ret (ok : Bool)
  deriving DecidableEq, Repr

/-- The three places where `wait_pop_for` evaluates `empty()`: before each block, after a timeout, before the pop. -/
inductive WaitCheck
  | loop
  | deadline
  | recheck
  deriving DecidableEq, Repr

inductive WaiterPc (T : Type)
  | idle
  | lock
  | check (c : WaitCheck)
  | block
  | blocked
  | woken
  | pop
  | ret (out : Option T)
  deriving DecidableEq, Repr

structure CommandPath (T : Type) where
  ring      : Spsc T
  sender    : SenderPc
  waiter    : WaiterPc T
  /-- `m_waitMutex` is held, by the consumer, who is the only one to take it. -/
  waitMutex : Bool

/-- What can happen next; `sender` and `waiter` are steps inside `push`, `empty` and `pop`. -/
inductive CommandAct (T : Type)
  | sendCommand (cmd : T)
  | sender (a : SpscAct T)
  | pushed
  | notifyOne
  | sent
  | waitPopFor
  | lock
  | waiter (a : SpscAct T)
  | checked
  | block
  | wake
  | relock (timedOut : Bool)
  | popped
  | unlock
  deriving DecidableEq, Repr

namespace CommandPath

variable {T : Type}

def init [Inhabited T] (rb : SpScRingBuffer T) : CommandPath T where
  ring      := Spsc.init rb
  sender    := .idle
  waiter    := .idle
  waitMutex := false

/-- A step of a `push` in progress, its return apart. -/
def pushStep (r : Spsc T) : SpscAct T → Option (Spsc T)
  | .producer        => match r.producer with
                        | .pushReturn _ => none
                        | _             => r.step .producer
  | .producerLoads j => r.step (.producerLoads j)
  | _                => none

/-- A step of an `empty` or a `pop` in progress, its return apart. -/
def popStep (r : Spsc T) : SpscAct T → Option (Spsc T)
  | .consumer        => match r.consumer with
                        | .popReturn _   => none
                        | .emptyReturn _ => none
                        | _              => r.step .consumer
  | .consumerLoads j => r.step (.consumerLoads j)
  | .consumerReads k => r.step (.consumerReads k)
  | _                => none

def callEmpty (s : CommandPath T) (c : WaitCheck) : Option (CommandPath T) :=
  (s.ring.step .callEmpty).map (fun r => { s with ring := r, waiter := .check c })

def checked (s : CommandPath T) (c : WaitCheck) (e : Bool) : Option (CommandPath T) :=
  (s.ring.step .consumer).bind (fun r =>
    match c, e with
    | .loop,     true  => some { s with ring := r, waiter := .block }
    | .loop,     false => callEmpty { s with ring := r } .recheck
    | .deadline, true  => some { s with ring := r, waiter := .ret none }
    | .deadline, false => callEmpty { s with ring := r } .recheck
    | .recheck,  true  => some { s with ring := r, waiter := .ret none }
    | .recheck,  false => (r.step .callPop).map (fun r => { s with ring := r, waiter := .pop }))

def step (s : CommandPath T) : CommandAct T → Option (CommandPath T)
  | .sendCommand cmd =>
    match s.sender with
    | .idle => (s.ring.step (.callPush cmd)).map (fun r => { s with ring := r, sender := .push })
    | _     => none
  | .sender a =>
    match s.sender with
    | .push => (pushStep s.ring a).map (fun r => { s with ring := r })
    | _     => none
  | .pushed =>
    match s.sender, s.ring.producer with
    | .push, .pushReturn ok =>
      (s.ring.step .producer).map (fun r => { s with ring := r, sender := if ok then .notify else .ret false })
    | _, _ => none
  | .notifyOne =>
    match s.sender, s.waiter with
    | .notify, .blocked => some { s with sender := .ret true, waiter := .woken }
    | .notify, _        => some { s with sender := .ret true }
    | _, _              => none
  | .sent =>
    match s.sender with
    | .ret _ => some { s with sender := .idle }
    | _      => none
  | .waitPopFor =>
    match s.waiter with
    | .idle => some { s with waiter := .lock }
    | _     => none
  | .lock =>
    match s.waiter, s.waitMutex with
    | .lock, false =>
      if !s.ring.initialized then some { s with waitMutex := true, waiter := .ret none }
      else callEmpty { s with waitMutex := true } .loop
    | _, _ => none
  | .waiter a =>
    match s.waiter with
    | .check _ => (popStep s.ring a).map (fun r => { s with ring := r })
    | .pop     => (popStep s.ring a).map (fun r => { s with ring := r })
    | _        => none
  | .checked =>
    match s.waiter, s.ring.consumer with
    | .check c, .emptyReturn e => checked s c e
    | _, _ => none
  | .block =>
    match s.waiter with
    | .block => some { s with waitMutex := false, waiter := .blocked }
    | _      => none
  | .wake =>
    match s.waiter with
    | .blocked => some { s with waiter := .woken }
    | _        => none
  | .relock timedOut =>
    match s.waiter, s.waitMutex with
    | .woken, false => callEmpty { s with waitMutex := true } (if timedOut then .deadline else .loop)
    | _, _ => none
  | .popped =>
    match s.waiter, s.ring.consumer with
    | .pop, .popReturn out => (s.ring.step .consumer).map (fun r => { s with ring := r, waiter := .ret out })
    | _, _ => none
  | .unlock =>
    match s.waiter with
    | .ret _ => some { s with waitMutex := false, waiter := .idle }
    | _      => none

def machine [Inhabited T] (rb : SpScRingBuffer T) : Machine (CommandPath T) (CommandAct T) where
  init := init rb
  step := step

/-! ## Lost wake-ups -/

def betweenPushAndNotify (s : CommandPath T) : Bool :=
  match s.sender, s.ring.producer with
  | .notify, _              => true
  | .push, .pushReturn true => true
  | _, _                    => false

/-- **The consumer is blocked and not notified, there is something to pop, and nobody is about to notify.** -/
def LostWakeup (s : CommandPath T) : Prop :=
  s.waiter = .blocked ∧ s.ring.delivered.length < s.ring.published.length ∧ s.betweenPushAndNotify = false

/-- The predicate has found the buffer empty and the consumer has not blocked yet. -/
def aboutToBlock (s : CommandPath T) : Bool :=
  match s.waiter, s.ring.consumer with
  | .block, _                      => true
  | .check .loop, .emptyReturn true => true
  | _, _                           => false

/-- The predicate's load of `m_head` returns an old store, the `j`-th, and shows the buffer empty. -/
def overlooks (s : CommandPath T) (j : Nat) : Bool :=
  match s.waiter, s.ring.consumer with
  | .check .loop, .emptyLoadHead tail => s.ring.head.stores[j]? = some tail && j ≠ s.ring.head.newest
  | _, _                              => false

/-- **The steps after which no wake-up is lost**: `notifyOne` does not fall between the predicate and the block, and the
predicate overlooks nothing unless its `notifyOne` is to come. -/
def punctual (s : CommandPath T) : CommandAct T → Bool
  | .notifyOne                 => !s.aboutToBlock
  | .waiter (.consumerLoads j) => !s.overlooks j || s.betweenPushAndNotify
  | _                          => true

/-! ## What the steps inside the ring buffer's calls do -/

theorem pushStep_step {r r' : Spsc T} {a : SpscAct T} (h : pushStep r a = some r') :
    ∃ b, b ≠ .consumer ∧ r.step b = some r' := by
  cases a with
  | producer =>
    simp only [pushStep] at h
    split at h
    · cases h
    · exact ⟨.producer, nofun, h⟩
  | producerLoads j => exact ⟨.producerLoads j, nofun, h⟩
  | _ => cases h

theorem popStep_step {r r' : Spsc T} {a : SpscAct T} (h : popStep r a = some r') :
    r.step a = some r' := by
  cases a with
  | consumer =>
    simp only [popStep] at h
    split at h
    · cases h
    · cases h
    · exact h
  | consumerLoads j => exact h
  | consumerReads k => exact h
  | _ => cases h

theorem popStep_ne_popReturn {r r' : Spsc T} {a : SpscAct T} (h : popStep r a = some r') :
    a = .consumer → ∀ out, r.consumer ≠ .popReturn out := by
  rintro rfl out hc
  rw [popStep, hc] at h
  cases h

/-- **A step of `push` is silent on the consumer's side, and stores `m_head` only as its last one.** -/
theorem pushStep_frame {r r' : Spsc T} {a : SpscAct T} (h : pushStep r a = some r') :
    r'.tail = r.tail ∧ r'.consumer = r.consumer ∧ (r'.head = r.head ∨ r'.producer = .pushReturn true) ∧
    r.producer ≠ .pushReturn true := by
  cases a with
  | producer =>
    simp only [pushStep] at h
    split at h
    · cases h
    · rename_i hnr
      simp only [Spsc.step, Spsc.producerStep] at h
      split at h
      all_goals first
        | (cases h; exact ⟨rfl, rfl, .inl rfl, hnr true⟩)
        | (cases h; exact ⟨rfl, rfl, .inr rfl, hnr true⟩)
        | cases h
  | producerLoads j =>
    simp only [pushStep, Spsc.step] at h
    split at h
    · split at h
      · unfold Spsc.producerLoad at h
        split at h
        · rename_i hp
          have hnr : r.producer ≠ .pushReturn true := fun he => by rw [he] at hp; cases hp
          dsimp only at h
          split at h <;> (cases h; exact ⟨rfl, rfl, .inl rfl, hnr⟩)
        · rename_i hp
          have hnr : r.producer ≠ .pushReturn true := fun he => by rw [he] at hp; cases hp
          cases h
          exact ⟨rfl, rfl, .inl rfl, hnr⟩
        · cases h
      · cases h
    · cases h
  | _ => cases h

/-- **A step inside `empty` or `pop` is silent on the producer's side**; `empty` comes out true only by a load of
`m_head` that returned the consumer's own index. -/
theorem popStep_frame {r r' : Spsc T} {a : SpscAct T} (h : popStep r a = some r') :
    r'.head = r.head ∧ r'.producer = r.producer ∧
    (r'.consumer = .emptyReturn true → r'.tail = r.tail ∧ ∃ j tail, a = .consumerLoads j ∧
      r.consumer = .emptyLoadHead tail ∧ r.head.stores[j]? = some tail) := by
  cases a with
  | consumer =>
    simp only [popStep] at h
    split at h
    · cases h
    · cases h
    · rename_i hnp hne
      simp only [Spsc.step, Spsc.consumerStep] at h
      split at h
      · cases h; exact ⟨rfl, rfl, fun he => by cases he⟩
      · cases h; exact ⟨rfl, rfl, fun he => by cases he⟩
      · cases h; exact ⟨rfl, rfl, fun he => by cases he⟩
      · rename_i hc; exact absurd hc (hnp _)
      · rename_i hc; exact absurd hc (hne _)
      · cases h
  | consumerLoads j =>
    simp only [popStep, Spsc.step] at h
    split at h
    · rename_i head hl
      split at h
      · unfold Spsc.consumerLoad at h
        split at h
        · split at h <;> (cases h; exact ⟨rfl, rfl, fun he => by cases he⟩)
        · rename_i tail hc
          cases h
          refine ⟨rfl, rfl, fun he => ⟨rfl, j, tail, rfl, hc, ?_⟩⟩
          obtain rfl : tail = head := by simpa using he
          exact hl
        · cases h
      · cases h
    · cases h
  | consumerReads k =>
    simp only [popStep, Spsc.step] at h
    split at h
    · split at h
      · split at h
        · cases h; exact ⟨rfl, rfl, fun he => by cases he⟩
        · cases h
      · cases h
    · cases h
  | _ => cases h

theorem consumer_return {r r' : Spsc T} (hr : (∃ e, r.consumer = .emptyReturn e) ∨ ∃ out, r.consumer = .popReturn out)
    (h : r.step .consumer = some r') : r' = { r with consumer := .idle } := by
  rcases hr with ⟨e, hc⟩ | ⟨out, hc⟩
  · simp only [Spsc.step, Spsc.consumerStep, hc] at h
    cases h; rfl
  · simp only [Spsc.step, Spsc.consumerStep, hc] at h
    cases h; rfl

theorem callEmpty_eq {s t : CommandPath T} {c : WaitCheck} (h : s.callEmpty c = some t) :
    ∃ r, s.ring.step .callEmpty = some r ∧ t = { s with ring := r, waiter := .check c } := by
  obtain ⟨r, hr, rfl⟩ := Option.map_eq_some_iff.1 h
  exact ⟨r, hr, rfl⟩

theorem callEmpty_consumer {r r' : Spsc T} (hi : r.initialized = true) (h : r.step .callEmpty = some r') :
    r' = { r with consumer := .emptyLoadTail } := by
  simp only [Spsc.step] at h
  split at h
  · cases h; rw [hi]; rfl
  · cases h

/-- **What the return of `empty` leads to.** -/
theorem checked_waiter {s t : CommandPath T} {c : WaitCheck} {e : Bool} (hst : s.checked c e = some t) :
    t.waiter = .block ∨ t.waiter = .check .recheck ∨ t.waiter = .pop ∨
      (t.waiter = .ret none ∧ c ≠ .loop ∧ e = true) := by
  obtain ⟨r, -, hst⟩ := Option.bind_eq_some_iff.1 hst
  have hagain : (callEmpty { s with ring := r } .recheck) = some t → t.waiter = .check .recheck := by
    intro hcall
    obtain ⟨r', -, rfl⟩ := callEmpty_eq hcall
    rfl
  cases c with
  | loop =>
    cases e with
    | true => cases hst; exact .inl rfl
    | false => exact .inr (.inl (hagain hst))
  | deadline =>
    cases e with
    | true => cases hst; exact .inr (.inr (.inr ⟨rfl, nofun, rfl⟩))
    | false => exact .inr (.inl (hagain hst))
  | recheck =>
    cases e with
    | true => cases hst; exact .inr (.inr (.inr ⟨rfl, nofun, rfl⟩))
    | false =>
      obtain ⟨r', -, rfl⟩ := Option.map_eq_some_iff.1 hst
      exact .inr (.inr (.inl rfl))

/-! ## How a step moves the ring and the consumer's thread -/

/-- `ring` is a step inside `push`, `empty` or `pop`, or the call of `push` or its return; of the steps of the thread,
`calls`, `checked` and `popped` are those that move the ring. -/
inductive Moves (s t : CommandPath T) (a : CommandAct T) : Prop
  | ring (b : SpscAct T) (hw : t.waiter = s.waiter) (hr : s.ring.step b = some t.ring)
      (hret : b = .consumer → ∀ out, s.ring.consumer ≠ .popReturn out)
  | stays (hw : t.waiter = s.waiter) (hr : t.ring = s.ring)
  | goes (hw : t.waiter = .idle ∨ t.waiter = .lock ∨ t.waiter = .woken) (hr : t.ring = s.ring)
  | blocks (ha : a = .block) (hw : t.waiter = .blocked) (hr : t.ring = s.ring)
  | uninitialized (hi : s.ring.initialized = false) (hw : t.waiter = .ret none) (hr : t.ring = s.ring)
  | calls (c : WaitCheck) (hc : c ≠ .recheck) (hw : t.waiter = .check c) (hr : s.ring.step .callEmpty = some t.ring)
  | checked (c : WaitCheck) (e : Bool) (hw : s.waiter = .check c) (hc : s.ring.consumer = .emptyReturn e)
      (hst : s.checked c e = some t)
  | popped (out : Option T) (hw : s.waiter = .pop) (hc : s.ring.consumer = .popReturn out)
      (ht : t.waiter = .ret out) (hr : s.ring.step .consumer = some t.ring)

theorem moves_of_step {s t : CommandPath T} {a : CommandAct T} (hst : s.step a = some t) : Moves s t a := by
  have hcalls : ∀ {u : CommandPath T} {c : WaitCheck}, u.ring = s.ring → c ≠ .recheck → u.callEmpty c = some t →
      Moves s t a := by
    intro u c hu hc hcall
    obtain ⟨r, hr, rfl⟩ := callEmpty_eq hcall
    exact .calls c hc rfl (by rw [← hu]; exact hr)
  have hpop : ∀ {b : SpscAct T}, (popStep s.ring b).map (fun r => { s with ring := r }) = some t → Moves s t a := by
    intro b hst
    obtain ⟨r, hr, rfl⟩ := Option.map_eq_some_iff.1 hst
    exact .ring b rfl (popStep_step hr) (popStep_ne_popReturn hr)
  cases a with
  | sendCommand cmd =>
    simp only [step] at hst
    split at hst
    · obtain ⟨r, hr, rfl⟩ := Option.map_eq_some_iff.1 hst
      exact .ring _ rfl hr nofun
    · cases hst
  | sender b =>
    simp only [step] at hst
    split at hst
    · obtain ⟨r, hr, rfl⟩ := Option.map_eq_some_iff.1 hst
      obtain ⟨b, hb, hr⟩ := pushStep_step hr
      exact .ring b rfl hr (fun he => absurd he hb)
    · cases hst
  | pushed =>
    simp only [step] at hst
    split at hst
    · obtain ⟨r, hr, rfl⟩ := Option.map_eq_some_iff.1 hst
      exact .ring _ rfl hr nofun
    · cases hst
  | notifyOne =>
    simp only [step] at hst
    split at hst
    · cases hst; exact .goes (.inr (.inr rfl)) rfl
    · cases hst; exact .stays rfl rfl
    · cases hst
  | sent =>
    simp only [step] at hst
    split at hst
    · cases hst; exact .stays rfl rfl
    · cases hst
  | waitPopFor =>
    simp only [step] at hst
    split at hst
    · cases hst; exact .goes (.inr (.inl rfl)) rfl
    · cases hst
  | lock =>
    simp only [step] at hst
    split at hst
    · split at hst
      · rename_i hi
        cases hst
        exact .uninitialized (by simpa using hi) rfl rfl
      · exact hcalls (u := { s with waitMutex := true }) (c := .loop) rfl nofun hst
    · cases hst
  | waiter b =>
    simp only [step] at hst
    split at hst
    · exact hpop hst
    · exact hpop hst
    · cases hst
  | checked =>
    simp only [step] at hst
    split at hst
    · rename_i hw hc; exact .checked _ _ hw hc hst
    · cases hst
  | block =>
    simp only [step] at hst
    split at hst
    · cases hst; exact .blocks rfl rfl rfl
    · cases hst
  | wake =>
    simp only [step] at hst
    split at hst
    · cases hst; exact .goes (.inr (.inr rfl)) rfl
    · cases hst
  | relock timedOut =>
    simp only [step] at hst
    split at hst
    · exact hcalls (u := { s with waitMutex := true }) rfl (by cases timedOut <;> decide) hst
    · cases hst
  | popped =>
    simp only [step] at hst
    split at hst
    · rename_i hw hc
      obtain ⟨r, hr, rfl⟩ := Option.map_eq_some_iff.1 hst
      exact .popped _ hw hc rfl hr
    · cases hst
  | unlock =>
    simp only [step] at hst
    split at hst
    · cases hst; exact .goes (.inl rfl) rfl
    · cases hst

/-! ## The ring of the command path -/

section Ring

variable [Inhabited T] {rb : SpScRingBuffer T}

/-- **The ring goes on by steps of its own**, at most two in a row: the return of `empty`, and the next call. -/
def RingRuns (rb : SpScRingBuffer T) (s t : CommandPath T) : Prop :=
  ∃ as, (Spsc.machine rb).runFrom s.ring as = some t.ring

theorem RingRuns.of_same {s t : CommandPath T} (h : t.ring = s.ring) : RingRuns rb s t :=
  ⟨[], congrArg some h.symm⟩

theorem RingRuns.of_step {s t : CommandPath T} {b : SpscAct T} (h : s.ring.step b = some t.ring) : RingRuns rb s t := by
  refine ⟨[b], ?_⟩
  rw [Machine.runFrom_cons]
  show (s.ring.step b).bind _ = _
  rw [h]; rfl

theorem RingRuns.of_two {s t : CommandPath T} {b c : SpscAct T} {r : Spsc T} (hb : s.ring.step b = some r)
    (hc : r.step c = some t.ring) : RingRuns rb s t := by
  refine ⟨[b, c], ?_⟩
  rw [Machine.runFrom_cons]
  show (s.ring.step b).bind _ = _
  rw [hb]
  show (r.step c).bind _ = _
  rw [hc]; rfl

theorem RingRuns.checked {s t : CommandPath T} {c : WaitCheck} {e : Bool} (hst : s.checked c e = some t) :
    RingRuns rb s t := by
  obtain ⟨r, hr, hst⟩ := Option.bind_eq_some_iff.1 hst
  have hagain : (callEmpty { s with ring := r } .recheck) = some t → RingRuns rb s t := by
    intro hcall
    obtain ⟨r', hr', rfl⟩ := callEmpty_eq hcall
    exact .of_two hr hr'
  cases c with
  | loop =>
    cases e with
    | true => cases hst; exact .of_step hr
    | false => exact hagain hst
  | deadline =>
    cases e with
    | true => cases hst; exact .of_step hr
    | false => exact hagain hst
  | recheck =>
    cases e with
    | true => cases hst; exact .of_step hr
    | false =>
      obtain ⟨r', hr', rfl⟩ := Option.map_eq_some_iff.1 hst
      exact .of_two hr hr'

theorem ringRuns_of_step {s t : CommandPath T} {a : CommandAct T} (hst : s.step a = some t) : RingRuns rb s t := by
  cases moves_of_step hst with
  | ring b hw hr hret => exact .of_step hr
  | stays hw hr => exact .of_same hr
  | goes hw hr => exact .of_same hr
  | blocks ha hw hr => exact .of_same hr
  | uninitialized hi hw hr => exact .of_same hr
  | calls c hc hw hr => exact .of_step hr
  | checked c e hw hc hst => exact .checked hst
  | popped out hw hc ht hr => exact .of_step hr

/-- **The ring of a reachable command path is a reachable ring.** -/
theorem reachable_ring {s : CommandPath T} (hs : (machine rb).Reachable s) : (Spsc.machine rb).Reachable s.ring := by
  refine hs.invariant (I := fun s => (Spsc.machine rb).Reachable s.ring) .init (fun s a t hI hst => ?_)
  have hruns : RingRuns rb s t := ringRuns_of_step hst
  obtain ⟨as, has⟩ := hruns
  exact hI.runFrom as has

end Ring

/-! ## No lost wake-up -/

/-- The consumer is blocked, or on the way there since its predicate found the buffer empty. -/
def Waiting (s : CommandPath T) : Prop := s.aboutToBlock = true ∨ s.waiter = .blocked

/-- Nothing to pop, or a notification on its way. -/
def Quiet (s : CommandPath T) : Prop := s.ring.head.newest = s.ring.tail.newest ∨ s.betweenPushAndNotify = true

structure WaitInv (n : Nat) (s : CommandPath T) : Prop where
  ring  : Spsc.Inv n s.ring
  quiet : s.Waiting → s.Quiet

theorem WaitInv.keep {n : Nat} {s t : CommandPath T} (h : WaitInv n s) (hr : Spsc.Inv n t.ring)
    (hw : t.waiter = s.waiter) (hc : t.ring.consumer = s.ring.consumer) (hq : s.Quiet → t.Quiet) : WaitInv n t := by
  refine ⟨hr, fun hwait => hq (h.quiet ?_)⟩
  unfold Waiting aboutToBlock at *
  rw [hw, hc] at hwait
  exact hwait

theorem not_waiting {s : CommandPath T} (hw : s.waiter ≠ .block) (hb : s.waiter ≠ .blocked)
    (hc : s.waiter = .check .loop → s.ring.consumer ≠ .emptyReturn true) : ¬ s.Waiting := by
  rintro (h | h)
  · unfold aboutToBlock at h
    split at h
    · rename_i heq; exact hw heq
    · rename_i heq hce; exact hc heq hce
    · cases h
  · exact hb h

/-- **A load that shows the newest store shows the consumer all there is.** -/
theorem newest_of_load {n : Nat} {r : Spsc T} (h : Spsc.Inv n r) {tail : SizeT} (hc : r.consumer = .emptyLoadHead tail)
    (hl : r.head.stores[r.head.newest]? = some tail) : r.head.newest = r.tail.newest := by
  have hpc := h.consumer
  rw [hc] at hpc
  have htail : tail.toNat = r.tail.newest % n := hpc
  have hhead := h.head _ _ hl
  have hroom := h.room
  have hbehind := h.behind
  by_contra hne
  exact SpScRingBuffer.mod_ne_mod (show r.tail.newest < r.head.newest by omega) (by omega) (htail.symm.trans hhead)

theorem Quiet.newest {s : CommandPath T} (h : s.Quiet) (hb : s.betweenPushAndNotify = false) :
    s.ring.head.newest = s.ring.tail.newest := by
  rcases h with h | h
  · exact h
  · rw [hb] at h; cases h

theorem WaitInv.senderStep {n : Nat} {s t : CommandPath T} {a : CommandAct T} (h : WaitInv n s)
    (ha : (∃ cmd, a = .sendCommand cmd) ∨ (∃ b, a = .sender b) ∨ a = .pushed ∨ a = .notifyOne ∨ a = .sent)
    (hok : s.punctual a = true) (hst : s.step a = some t) : WaitInv n t := by
  rcases ha with ⟨cmd, rfl⟩ | ⟨b, rfl⟩ | rfl | rfl | rfl
  · -- the call of `push` moves the producer only
    simp only [step] at hst
    split at hst
    · rename_i hs
      obtain ⟨r, hr, rfl⟩ := Option.map_eq_some_iff.1 hst
      have hinv := Spsc.inv_step h.ring hr
      simp only [Spsc.step] at hr
      split at hr
      · cases hr
        exact h.keep hinv rfl rfl (fun hq => .inl (hq.newest (by simp [betweenPushAndNotify, hs])))
      · cases hr
    · cases hst
  · simp only [step] at hst
    split at hst
    · rename_i hs
      obtain ⟨r, hr, rfl⟩ := Option.map_eq_some_iff.1 hst
      obtain ⟨b, -, hb⟩ := pushStep_step hr
      obtain ⟨htail, hcons, hhead, hnr⟩ := pushStep_frame hr
      refine h.keep (Spsc.inv_step h.ring hb) rfl hcons (fun hq => ?_)
      rcases hhead with hhead | hprod
      · left
        show r.head.newest = r.tail.newest
        rw [hhead, htail]
        refine hq.newest ?_
        unfold betweenPushAndNotify
        split
        · rename_i heq; rw [hs] at heq; cases heq
        · rename_i heq; exact absurd heq hnr
        · rfl
      · right
        simp [betweenPushAndNotify, hs, hprod]
    · cases hst
  · simp only [step] at hst
    split at hst
    · rename_i ok hs hp
      obtain ⟨r, hr, rfl⟩ := Option.map_eq_some_iff.1 hst
      have hinv := Spsc.inv_step h.ring hr
      simp only [Spsc.step, Spsc.producerStep, hp] at hr
      cases hr
      refine h.keep hinv rfl rfl (fun hq => ?_)
      cases ok with
      | true => exact .inr rfl
      | false => exact .inl (hq.newest (by simp [betweenPushAndNotify, hs, hp]))
    · cases hst
  · simp only [step] at hst
    split at hst
    · cases hst
      exact ⟨h.ring, fun hw => by rcases hw with hw | hw <;> cases hw⟩
    · rename_i hs hnb
      cases hst
      refine ⟨h.ring, fun hw => ?_⟩
      rcases hw with hw | hw
      · have hab : s.aboutToBlock = true := hw
        simp [punctual, hab] at hok
      · exact absurd hw hnb
    · cases hst
  · simp only [step] at hst
    split at hst
    · rename_i ok hs
      cases hst
      exact h.keep h.ring rfl rfl (fun hq => .inl (hq.newest (by simp [betweenPushAndNotify, hs])))
    · cases hst

theorem WaitInv.callEmpty {n : Nat} {s t : CommandPath T} {c : WaitCheck} (h : Spsc.Inv n s.ring)
    (hst : s.callEmpty c = some t) : WaitInv n t := by
  obtain ⟨r, hr, rfl⟩ := callEmpty_eq hst
  refine ⟨Spsc.inv_step h hr, fun hw => absurd hw (not_waiting nofun nofun (fun _ => ?_))⟩
  rw [callEmpty_consumer h.ready hr]
  exact nofun

theorem WaitInv.checked {n : Nat} {s t : CommandPath T} {c : WaitCheck} {e : Bool} (h : WaitInv n s)
    (hw : s.waiter = .check c) (hc : s.ring.consumer = .emptyReturn e) (hst : s.checked c e = some t) :
    WaitInv n t := by
  obtain ⟨r, hr, hst⟩ := Option.bind_eq_some_iff.1 hst
  have hinv := Spsc.inv_step h.ring hr
  have hreq := consumer_return (.inl ⟨e, hc⟩) hr
  subst hreq
  cases c with
  | loop =>
    cases e with
    | true =>
      -- the predicate was false: nothing to pop, or a notification on its way, as it was when it came out
      cases hst
      exact ⟨hinv, fun _ => h.quiet (.inl (by simp [aboutToBlock, hw, hc]))⟩
    | false => exact WaitInv.callEmpty (s := { s with ring := { s.ring with consumer := .idle } }) hinv hst
  | deadline =>
    cases e with
    | true => cases hst; exact ⟨hinv, fun hwait => absurd hwait (not_waiting nofun nofun nofun)⟩
    | false => exact WaitInv.callEmpty (s := { s with ring := { s.ring with consumer := .idle } }) hinv hst
  | recheck =>
    cases e with
    | true => cases hst; exact ⟨hinv, fun hwait => absurd hwait (not_waiting nofun nofun nofun)⟩
    | false =>
      obtain ⟨r, hr', rfl⟩ := Option.map_eq_some_iff.1 hst
      exact ⟨Spsc.inv_step hinv hr', fun hwait => absurd hwait (not_waiting nofun nofun nofun)⟩

/-- **A step inside `empty` or `pop`**: if it makes the predicate false, it loaded the newest `m_head` store, or a
notification is on its way. -/
theorem WaitInv.waiter {n : Nat} {s t : CommandPath T} {a : SpscAct T} (h : WaitInv n s)
    (hok : s.punctual (.waiter a) = true) (hst : s.step (.waiter a) = some t) : WaitInv n t := by
  have hring : ∃ r, popStep s.ring a = some r ∧ t = { s with ring := r } ∧ s.waiter ≠ .block ∧ s.waiter ≠ .blocked := by
    simp only [step] at hst
    split at hst
    · rename_i hs
      obtain ⟨r, hr, rfl⟩ := Option.map_eq_some_iff.1 hst
      exact ⟨r, hr, rfl, by rw [hs]; exact nofun, by rw [hs]; exact nofun⟩
    · rename_i hs
      obtain ⟨r, hr, rfl⟩ := Option.map_eq_some_iff.1 hst
      exact ⟨r, hr, rfl, by rw [hs]; exact nofun, by rw [hs]; exact nofun⟩
    · cases hst
  obtain ⟨r, hr, rfl, hnb, hnd⟩ := hring
  obtain ⟨hhead, hprod, hempty⟩ := popStep_frame hr
  refine ⟨Spsc.inv_step h.ring (popStep_step hr), fun hwait => ?_⟩
  by_cases hce : s.waiter = .check .loop ∧ r.consumer = .emptyReturn true
  · obtain ⟨hw, he⟩ := hce
    obtain ⟨htail, j, tail, rfl, hc, hl⟩ := hempty he
    by_cases hj : j = s.ring.head.newest
    · left
      show r.head.newest = r.tail.newest
      rw [hhead, htail]
      rw [hj] at hl
      exact newest_of_load h.ring hc hl
    · right
      have hover : s.overlooks j = true := by simp [overlooks, hw, hc, hl, hj]
      simp only [punctual, hover, Bool.not_true, Bool.false_or] at hok
      unfold betweenPushAndNotify at hok ⊢
      rw [hprod]
      exact hok
  · exact absurd hwait (not_waiting hnb hnd (fun hw he => hce ⟨hw, he⟩))

theorem waitInv_step {n : Nat} {s t : CommandPath T} {a : CommandAct T} (h : WaitInv n s) (hok : s.punctual a = true)
    (hst : s.step a = some t) : WaitInv n t := by
  cases a with
  | sendCommand cmd => exact h.senderStep (.inl ⟨cmd, rfl⟩) hok hst
  | sender b => exact h.senderStep (.inr (.inl ⟨b, rfl⟩)) hok hst
  | pushed => exact h.senderStep (.inr (.inr (.inl rfl))) hok hst
  | notifyOne => exact h.senderStep (.inr (.inr (.inr (.inl rfl)))) hok hst
  | sent => exact h.senderStep (.inr (.inr (.inr (.inr rfl)))) hok hst
  | waitPopFor =>
    simp only [step] at hst
    split at hst
    · cases hst
      exact ⟨h.ring, fun hwait => absurd hwait (not_waiting nofun nofun nofun)⟩
    · cases hst
  | lock =>
    simp only [step] at hst
    split at hst
    · split at hst
      · cases hst
        exact ⟨h.ring, fun hwait => absurd hwait (not_waiting nofun nofun nofun)⟩
      · exact WaitInv.callEmpty (s := { s with waitMutex := true }) h.ring hst
    · cases hst
  | waiter b => exact h.waiter hok hst
  | checked =>
    simp only [step] at hst
    split at hst
    · rename_i hw hc; exact h.checked hw hc hst
    · cases hst
  | block =>
    simp only [step] at hst
    split at hst
    · rename_i hw
      cases hst
      exact ⟨h.ring, fun _ => h.quiet (.inl (by simp [aboutToBlock, hw]))⟩
    · cases hst
  | wake =>
    simp only [step] at hst
    split at hst
    · cases hst
      exact ⟨h.ring, fun hwait => absurd hwait (not_waiting nofun nofun nofun)⟩
    · cases hst
  | relock timedOut =>
    simp only [step] at hst
    split at hst
    · exact WaitInv.callEmpty (s := { s with waitMutex := true }) h.ring hst
    · cases hst
  | popped =>
    simp only [step] at hst
    split at hst
    · obtain ⟨r, hr, rfl⟩ := Option.map_eq_some_iff.1 hst
      exact ⟨Spsc.inv_step h.ring hr, fun hwait => absurd hwait (not_waiting nofun nofun nofun)⟩
    · cases hst
  | unlock =>
    simp only [step] at hst
    split at hst
    · cases hst
      exact ⟨h.ring, fun hwait => absurd hwait (not_waiting nofun nofun nofun)⟩
    · cases hst

/-- **No wake-up is lost in a punctual run**: while no `notifyOne` falls between a predicate that found the buffer empty
and the block that follows, and the predicate overlooks no store whose `notifyOne` is past, a consumer that is blocked
and not notified has nothing to pop, or a `sendCommand` is about to notify it. -/
theorem no_lostWakeup [Inhabited T] {rb rb' : SpScRingBuffer T} {c : SizeT} (hinit : rb.init c = (rb', true))
    {s : CommandPath T} (hs : ((machine rb').only punctual).Reachable s) : ¬ s.LostWakeup := by
  have hinv : WaitInv c.toNat s := by
    refine hs.only_invariant ?_ (fun s a t hI hok hst => waitInv_step (s := s) hI hok hst)
    exact ⟨Spsc.inv_init hinit, fun hwait => absurd hwait (not_waiting nofun nofun nofun)⟩
  rintro ⟨hw, hlt, hb⟩
  have hq := (hinv.quiet (.inr hw)).newest hb
  rw [hinv.ring.published, hinv.ring.delivered] at hlt
  omega

/-- The observer's command buffer: `m_cmdBuffer.init(8)`. -/
def cmdBuffer : SpScRingBuffer ObserverCommand := (({} : SpScRingBuffer ObserverCommand).init 8).1

/-- A consumer that blocks while a command is pushed, before the `notifyOne`. -/
theorem no_lostWakeup_blocked : ∃ s : CommandPath ObserverCommand, s.waiter = .blocked ∧
    s.ring.published.length = 1 ∧ ¬ s.LostWakeup := by
  obtain ⟨s, hrun⟩ : ∃ s, ((machine cmdBuffer).only punctual).runFrom ((machine cmdBuffer).only punctual).init
      [.waitPopFor, .lock, .waiter .consumer, .waiter (.consumerLoads 0), .checked, .block,
       .sendCommand { type := .stressMode }, .sender .producer, .sender (.producerLoads 0), .sender .producer,
       .sender .producer, .pushed] = some s := ⟨_, rfl⟩
  have hw : s.waiter = .blocked := by cases hrun; rfl
  have hp : s.ring.published.length = 1 := by cases hrun; rfl
  exact ⟨s, hw, hp, no_lostWakeup (show ({} : SpScRingBuffer ObserverCommand).init 8 = (cmdBuffer, true) from rfl)
    (Machine.reachable_of_run _ hrun)⟩

/-- **A wake-up can be lost**: the observer's predicate finds the buffer empty; a whole `sendCommand`, `notifyOne`
included, runs before the observer blocks; the observer then sleeps on with a command in its buffer. -/
theorem exists_lostWakeup : ¬ ∀ s, (machine cmdBuffer).Reachable s → ¬ s.LostWakeup := by
  intro hall
  obtain ⟨s, hrun⟩ : ∃ s, (machine cmdBuffer).runFrom (machine cmdBuffer).init
      [.waitPopFor, .lock, .waiter .consumer, .waiter (.consumerLoads 0),
       .sendCommand { type := .stressMode }, .sender .producer, .sender (.producerLoads 0), .sender .producer,
       .sender .producer, .pushed, .notifyOne, .sent, .checked, .block] = some s := ⟨_, rfl⟩
  refine hall s (Machine.reachable_of_run _ hrun) ?_
  cases hrun
  exact ⟨rfl, by decide, rfl⟩

end CommandPath
end ThreadMessaging

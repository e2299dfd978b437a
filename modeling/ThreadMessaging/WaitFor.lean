import ThreadMessaging.Machine
/-!
# `workerBase::waitFor` and `stop`

`waitFor` is `m_waitCv.wait_for` under `m_waitMutex`, with `stopToken.stop_requested() || pred()` as its condition: a
check that fails releases the mutex and blocks, as one step; a thread that wakes, by a notification, spuriously or by
its timeout, takes the mutex again and checks again, and past the timeout that check is the result.  `stop` requests a
stop and then notifies all, and takes the mutex for neither.

* `waitFor_stopped`: a `stop()` is lost exactly in the waiter's window between its look at the token and its block.
* `waitFor_result`: the result tells a satisfied predicate from a stop only if the last check saw no stop.
-/
namespace ThreadMessaging

/-- How a `waitFor` ends: past its timeout or not, on a check that saw the stop or not, and what `pred()` was there. -/
structure WaitReturn where
  result   : Bool
  timedOut : Bool
  sawStop  : Bool
  value    : Bool
  deriving DecidableEq, Repr

/-- Where the waiter stands; a check is a `test` of the token and, if that saw no stop, an evaluation of `pred`. -/
inductive WaitForPc
  | idle
  | lock
  | test (timedOut : Bool)
  | pred (timedOut : Bool)
  | block
  | blocked
  | woken
  | ret (r : WaitReturn)
  deriving DecidableEq, Repr

inductive StopPc
  | idle
  | request
  | notify
  | ret
  deriving DecidableEq, Repr

inductive MutexOwner
  | free
  | waiter
  | other
  deriving DecidableEq, Repr

structure WaitFor where
  /-- The state of the token `waitFor` is given. -/
  requested : Bool
  /-- What `pred()` would return now. -/
  value     : Bool
  mutex     : MutexOwner
  waiter    : WaitForPc
  /-- `pred()` has evaluated to true in this call. -/
  satisfied : Bool
  stopper   : StopPc
  /-- A `stop()` has called its `notify_all`. -/
  notified  : Bool
  /-- A `stop()` has returned. -/
  returned  : Bool
  deriving DecidableEq, Repr

/-- What can happen next: a call of `waitFor` or a step of it, a wake-up without a notification, the return to the mutex
past the timeout or not; a call of `stop` or a step of it; a `wakeUp` or a request by somebody else, a change of what
`pred()` reads, somebody else at the mutex. -/
inductive WaitAct
  | call
  | wait
  | wake
  | relock (timedOut : Bool)
  | stop
  | stopStep
  | wakeUp
  | requestStop
  | change (v : Bool)
  | otherLock
  | otherUnlock
  deriving DecidableEq, Repr

namespace WaitFor

def init : WaitFor where
  requested := false
  value     := false
  mutex     := .free
  waiter    := .idle
  satisfied := false
  stopper   := .idle
  notified  := false
  returned  := false

def notifyAll (s : WaitFor) : WaitFor :=
  match s.waiter with
  | .blocked => { s with waiter := .woken }
  | _        => s

/-- The end of `waitFor`, which releases the mutex. -/
def finish (s : WaitFor) (r : WaitReturn) : WaitFor :=
  { s with waiter := .ret r, mutex := .free }

def waitStep (s : WaitFor) : Option WaitFor :=
  match s.waiter with
  | .lock          => if s.mutex = .free then some { s with mutex := .waiter, waiter := .test false } else none
  | .test timedOut =>
    if s.requested then
      some (s.finish { result := true, timedOut := timedOut, sawStop := true, value := s.value })
    else some { s with waiter := .pred timedOut }
  | .pred timedOut =>
    if s.value then
      some ({ s with satisfied := true }.finish
        { result := true, timedOut := timedOut, sawStop := false, value := true })
    else if timedOut then
      some (s.finish { result := false, timedOut := true, sawStop := false, value := false })
    else some { s with waiter := .block }
  | .block         => some { s with waiter := .blocked, mutex := .free }
  | .ret _         => some { s with waiter := .idle }
  | _              => none

def stopStep (s : WaitFor) : Option WaitFor :=
  match s.stopper with
  | .request => some { s with requested := true, stopper := .notify }
  | .notify  => some { s.notifyAll with stopper := .ret, notified := true }
  | .ret     => some { s with stopper := .idle, returned := true }
  | .idle    => none

def step (s : WaitFor) : WaitAct → Option WaitFor
  | .call            => match s.waiter with
                        | .idle => some { s with waiter := .lock, satisfied := false }
                        | _     => none
  | .wait            => s.waitStep
  | .wake            => match s.waiter with
                        | .blocked => some { s with waiter := .woken }
                        | _        => none
  | .relock timedOut =>
    match s.waiter with
    | .woken => if s.mutex = .free then some { s with mutex := .waiter, waiter := .test timedOut } else none
    | _      => none
  | .stop            => match s.stopper with
                        | .idle => some { s with stopper := .request }
                        | _     => none
  | .stopStep        => s.stopStep
  | .wakeUp          => some s.notifyAll
  | .requestStop     => some { s with requested := true }
  | .change v        => some { s with value := v }
  | .otherLock       => if s.mutex = .free then some { s with mutex := .other } else none
  | .otherUnlock     => if s.mutex = .other then some { s with mutex := .free } else none

/-- A waiter, a controller that stops it, and everybody else, in any order of steps. -/
def machine : Machine WaitFor WaitAct where
  init := init
  step := step

/-! ## What the steps do -/

/-- **What a step of the waiter in its call can be.** -/
theorem waitStep_cases {s t : WaitFor} (hst : s.waitStep = some t) :
    (s.waiter = .lock ∧ s.mutex = .free ∧ t = { s with mutex := .waiter, waiter := .test false }) ∨
    (∃ timedOut, s.waiter = .test timedOut ∧ s.requested = true ∧
      t = s.finish { result := true, timedOut := timedOut, sawStop := true, value := s.value }) ∨
    (∃ timedOut, s.waiter = .test timedOut ∧ s.requested = false ∧ t = { s with waiter := .pred timedOut }) ∨
    (∃ timedOut, s.waiter = .pred timedOut ∧ s.value = true ∧ t = { s with satisfied := true }.finish
      { result := true, timedOut := timedOut, sawStop := false, value := true }) ∨
    (s.waiter = .pred true ∧ s.value = false ∧
      t = s.finish { result := false, timedOut := true, sawStop := false, value := false }) ∨
    (s.waiter = .pred false ∧ s.value = false ∧ t = { s with waiter := .block }) ∨
    (s.waiter = .block ∧ t = { s with waiter := .blocked, mutex := .free }) ∨
    (∃ r, s.waiter = .ret r ∧ t = { s with waiter := .idle }) := by
  unfold waitStep at hst
  split at hst
  · rename_i hw
    split at hst
    · rename_i hm; cases hst; exact .inl ⟨hw, hm, rfl⟩
    · cases hst
  · rename_i timedOut hw
    split at hst
    · rename_i hr; cases hst; exact .inr (.inl ⟨timedOut, hw, hr, rfl⟩)
    · rename_i hr; cases hst; exact .inr (.inr (.inl ⟨timedOut, hw, by simpa using hr, rfl⟩))
  · rename_i timedOut hw
    split at hst
    · rename_i hv; cases hst; exact .inr (.inr (.inr (.inl ⟨timedOut, hw, hv, rfl⟩)))
    · rename_i hv
      have hv : s.value = false := by simpa using hv
      split at hst
      · rename_i ht
        subst ht
        cases hst; exact .inr (.inr (.inr (.inr (.inl ⟨hw, hv, rfl⟩))))
      · rename_i ht
        obtain rfl : timedOut = false := by simpa using ht
        cases hst; exact .inr (.inr (.inr (.inr (.inr (.inl ⟨hw, hv, rfl⟩)))))
  · rename_i hw; cases hst; exact .inr (.inr (.inr (.inr (.inr (.inr (.inl ⟨hw, rfl⟩))))))
  · rename_i r hw; cases hst; exact .inr (.inr (.inr (.inr (.inr (.inr (.inr ⟨r, hw, rfl⟩))))))
  · cases hst

theorem stopStep_cases {s t : WaitFor} (hst : s.stopStep = some t) :
    (s.stopper = .request ∧ t = { s with requested := true, stopper := .notify }) ∨
    (s.stopper = .notify ∧ t = { s.notifyAll with stopper := .ret, notified := true }) ∨
    (s.stopper = .ret ∧ t = { s with stopper := .idle, returned := true }) := by
  unfold stopStep at hst
  split at hst
  · rename_i hp; cases hst; exact .inl ⟨hp, rfl⟩
  · rename_i hp; cases hst; exact .inr (.inl ⟨hp, rfl⟩)
  · rename_i hp; cases hst; exact .inr (.inr ⟨hp, rfl⟩)
  · cases hst

/-- **A `notify_all` leaves nobody blocked**, and moves nothing else. -/
theorem notifyAll_cases (s : WaitFor) :
    (s.waiter = .blocked ∧ s.notifyAll = { s with waiter := .woken }) ∨
    (s.waiter ≠ .blocked ∧ s.notifyAll = s) := by
  unfold notifyAll
  split
  · rename_i hw; exact .inl ⟨hw, rfl⟩
  · rename_i hw; exact .inr ⟨hw, rfl⟩

/-- **What a step can be**: one of either thread's own, a wake-up, the waiter's return to the mutex, or one beside. -/
theorem step_cases {s t : WaitFor} {a : WaitAct} (hst : s.step a = some t) :
    (a = .call ∧ s.waiter = .idle ∧ t = { s with waiter := .lock, satisfied := false }) ∨
    (a = .wait ∧ s.waitStep = some t) ∨
    (s.waiter = .blocked ∧ t = { s with waiter := .woken }) ∨
    (∃ timedOut, s.waiter = .woken ∧ s.mutex = .free ∧
      t = { s with mutex := .waiter, waiter := .test timedOut }) ∨
    (a = .stop ∧ s.stopper = .idle ∧ t = { s with stopper := .request }) ∨
    (a = .stopStep ∧ s.stopStep = some t) ∨
    (t = { s with requested := true }) ∨
    (∃ v m, t = { s with value := v, mutex := m }) := by
  cases a with
  | call =>
    simp only [step] at hst
    split at hst
    · rename_i hw; cases hst; exact .inl ⟨rfl, hw, rfl⟩
    · cases hst
  | wait => exact .inr (.inl ⟨rfl, hst⟩)
  | wake =>
    simp only [step] at hst
    split at hst
    · rename_i hw; cases hst; exact .inr (.inr (.inl ⟨hw, rfl⟩))
    · cases hst
  | relock timedOut =>
    simp only [step] at hst
    split at hst
    · rename_i hw
      split at hst
      · rename_i hm; cases hst; exact .inr (.inr (.inr (.inl ⟨timedOut, hw, hm, rfl⟩)))
      · cases hst
    · cases hst
  | stop =>
    simp only [step] at hst
    split at hst
    · rename_i hp; cases hst; exact .inr (.inr (.inr (.inr (.inl ⟨rfl, hp, rfl⟩))))
    · cases hst
  | stopStep => exact .inr (.inr (.inr (.inr (.inr (.inl ⟨rfl, hst⟩)))))
  | wakeUp =>
    cases hst
    rcases s.notifyAll_cases with ⟨hw, heq⟩ | ⟨-, heq⟩
    · exact .inr (.inr (.inl ⟨hw, heq⟩))
    · rw [heq]; exact .inr (.inr (.inr (.inr (.inr (.inr (.inr ⟨s.value, s.mutex, rfl⟩))))))
  | requestStop => cases hst; exact .inr (.inr (.inr (.inr (.inr (.inr (.inl rfl))))))
  | change v => cases hst; exact .inr (.inr (.inr (.inr (.inr (.inr (.inr ⟨v, s.mutex, rfl⟩))))))
  | otherLock =>
    simp only [step] at hst
    split at hst
    · cases hst; exact .inr (.inr (.inr (.inr (.inr (.inr (.inr ⟨s.value, .other, rfl⟩))))))
    · cases hst
  | otherUnlock =>
    simp only [step] at hst
    split at hst
    · cases hst; exact .inr (.inr (.inr (.inr (.inr (.inr (.inr ⟨s.value, .free, rfl⟩))))))
    · cases hst

/-! ## A lost stop -/

/-- `stop()` has returned and the waiter is blocked un-notified. -/
def StopLost (s : WaitFor) : Prop := s.returned = true ∧ s.waiter = .blocked

/-- The step does not lose a stop: no `stop()` notifies a waiter about to block, and none that has notified is followed
by an evaluation that sends the waiter there. -/
def inTime (s : WaitFor) : WaitAct → Bool
  | .stopStep => !(s.stopper = .notify && s.waiter = .block)
  | .wait     => !(s.notified && s.waiter = .pred false && !s.value)
  | _         => true

/-- A `stop()` that has notified has returned, or is about to. -/
structure StopInv (s : WaitFor) : Prop where
  notified : s.returned = true ∨ s.stopper = .ret → s.notified = true
  returned : s.notified = true → s.returned = true ∨ s.stopper = .ret

theorem StopInv.same {s t : WaitFor} (h : StopInv s) (hn : t.notified = s.notified) (hret : t.returned = s.returned)
    (hp : t.stopper = s.stopper) : StopInv t := by
  refine ⟨fun ht => ?_, fun ht => ?_⟩
  · rw [hn]; rw [hret, hp] at ht; exact h.notified ht
  · rw [hret, hp]; rw [hn] at ht; exact h.returned ht

/-- A `stop()` at its start or past its request has not notified more than the ones before. -/
theorem StopInv.before {s t : WaitFor} (h : StopInv s) (hn : t.notified = s.notified)
    (hret : t.returned = s.returned) (hs : s.stopper ≠ .ret) (ht : t.stopper ≠ .ret) : StopInv t := by
  refine ⟨fun hr => ?_, fun hn' => ?_⟩
  · rw [hret] at hr
    rw [hn]; exact h.notified (hr.imp_right (fun he => absurd he ht))
  · rw [hn] at hn'
    rw [hret]
    exact (h.returned hn').imp_right (fun he => absurd he hs)

theorem StopInv.stopStep {s t : WaitFor} (h : StopInv s) (hst : s.stopStep = some t) : StopInv t := by
  rcases stopStep_cases hst with ⟨hp, rfl⟩ | ⟨hp, rfl⟩ | ⟨hp, rfl⟩
  · exact h.before rfl rfl (by rw [hp]; exact nofun) nofun
  · exact ⟨fun _ => rfl, fun _ => .inr rfl⟩
  · exact ⟨fun _ => h.notified (.inr hp), fun _ => .inl rfl⟩

theorem waitStep_frame {s t : WaitFor} (hst : s.waitStep = some t) :
    t.notified = s.notified ∧ t.returned = s.returned ∧ t.stopper = s.stopper := by
  rcases waitStep_cases hst with ⟨-, -, rfl⟩ | ⟨_, -, -, rfl⟩ | ⟨_, -, -, rfl⟩ | ⟨_, -, -, rfl⟩ | ⟨-, -, rfl⟩ |
    ⟨-, -, rfl⟩ | ⟨-, rfl⟩ | ⟨_, -, rfl⟩ <;> exact ⟨rfl, rfl, rfl⟩

theorem stopInv_step {s t : WaitFor} {a : WaitAct} (h : StopInv s) (hst : s.step a = some t) : StopInv t := by
  rcases step_cases hst with ⟨-, -, rfl⟩ | ⟨-, hgo⟩ | ⟨-, rfl⟩ | ⟨_, -, -, rfl⟩ | ⟨-, hp, rfl⟩ | ⟨-, hgo⟩ | rfl |
    ⟨v, m, rfl⟩
  · exact h.same rfl rfl rfl
  · obtain ⟨hn, hret, hp⟩ := waitStep_frame hgo
    exact h.same hn hret hp
  · exact h.same rfl rfl rfl
  · exact h.same rfl rfl rfl
  · exact h.before rfl rfl (by rw [hp]; exact nofun) nofun
  · exact h.stopStep hgo
  · exact h.same rfl rfl rfl
  · exact h.same rfl rfl rfl

theorem reachable_stopInv {s : WaitFor} (hs : machine.Reachable s) : StopInv s := by
  refine hs.invariant ⟨?_, nofun⟩ (fun s _ _ hI hst => stopInv_step (s := s) hI hst)
  rintro (h | h) <;> cases h

/-- **While the steps are in time**: after a `stop()` has notified, the waiter neither blocks nor is about to. -/
def Awake (s : WaitFor) : Prop := s.notified = true → s.waiter ≠ .block ∧ s.waiter ≠ .blocked

/-- A check that follows a `stop()` ends the call; one that a `stop()` has overtaken does, in time. -/
theorem Awake.waitStep {s t : WaitFor} (h : Awake s) (hok : inTime s .wait = true)
    (hst : s.waitStep = some t) : Awake t := by
  rcases waitStep_cases hst with ⟨-, -, rfl⟩ | ⟨_, -, -, rfl⟩ | ⟨_, -, -, rfl⟩ | ⟨_, -, -, rfl⟩ | ⟨-, -, rfl⟩ |
    ⟨hw, hv, rfl⟩ | ⟨hw, rfl⟩ | ⟨_, -, rfl⟩
  · exact fun _ => ⟨nofun, nofun⟩
  · exact fun _ => ⟨nofun, nofun⟩
  · exact fun _ => ⟨nofun, nofun⟩
  · exact fun _ => ⟨nofun, nofun⟩
  · exact fun _ => ⟨nofun, nofun⟩
  · intro hn
    have hn : s.notified = true := hn
    simp [inTime, hn, hw, hv] at hok
  · intro hn
    exact absurd hw (h hn).1
  · exact fun _ => ⟨nofun, nofun⟩

theorem Awake.stopStep {s t : WaitFor} (h : Awake s) (hok : inTime s .stopStep = true) (hst : s.stopStep = some t) :
    Awake t := by
  rcases stopStep_cases hst with ⟨-, rfl⟩ | ⟨hp, rfl⟩ | ⟨-, rfl⟩
  · exact h
  · intro _
    show s.notifyAll.waiter ≠ .block ∧ s.notifyAll.waiter ≠ .blocked
    rcases s.notifyAll_cases with ⟨-, heq⟩ | ⟨hne, heq⟩
    · rw [heq]; exact ⟨nofun, nofun⟩
    · rw [heq]
      refine ⟨fun hw => ?_, hne⟩
      simp [inTime, hp, hw] at hok
  · exact h

theorem awake_step {s t : WaitFor} {a : WaitAct} (h : Awake s) (hok : inTime s a = true)
    (hst : s.step a = some t) : Awake t := by
  rcases step_cases hst with ⟨-, -, rfl⟩ | ⟨rfl, hgo⟩ | ⟨-, rfl⟩ | ⟨_, -, -, rfl⟩ | ⟨-, -, rfl⟩ | ⟨rfl, hgo⟩ | rfl |
    ⟨v, m, rfl⟩
  · exact fun _ => ⟨nofun, nofun⟩
  · exact h.waitStep hok hgo
  · exact fun _ => ⟨nofun, nofun⟩
  · exact fun _ => ⟨nofun, nofun⟩
  · exact h
  · exact h.stopStep hok hgo
  · exact h
  · exact h

/-- A waiter about to block after a `stop()` has notified blocks, and the `stop()` returns. -/
theorem stopLost_of_block {s : WaitFor} (hw : s.waiter = .block) (hstop : s.returned = true ∨ s.stopper = .ret) :
    ∃ as u, machine.runFrom s as = some u ∧ u.StopLost := by
  rcases hstop with hr | hp
  · refine ⟨[.wait], { s with waiter := .blocked, mutex := .free }, ?_, hr, rfl⟩
    simp [Machine.runFrom, machine, step, waitStep, hw]
  · refine ⟨[.stopStep, .wait],
      { s with stopper := .idle, returned := true, waiter := .blocked, mutex := .free }, ?_, rfl, rfl⟩
    simp [Machine.runFrom, machine, step, WaitFor.stopStep, waitStep, hw, hp]

/-- A step that is not in time leaves the waiter about to block, with the `stop()` past its notification. -/
theorem stopLost_of_late {s t : WaitFor} {a : WaitAct} (hI : StopInv s) (hst : s.step a = some t)
    (hlate : inTime s a = false) : ∃ as u, machine.runFrom t as = some u ∧ u.StopLost := by
  cases a with
  | stopStep =>
    obtain ⟨hp, hw⟩ : s.stopper = .notify ∧ s.waiter = .block := by simpa [inTime] using hlate
    have hn : s.notifyAll = s := by
      rcases s.notifyAll_cases with ⟨hb, -⟩ | ⟨-, heq⟩
      · rw [hw] at hb; cases hb
      · exact heq
    obtain rfl : { s with stopper := .ret, notified := true } = t := by
      simpa [step, WaitFor.stopStep, hp, hn] using hst
    exact stopLost_of_block hw (.inr rfl)
  | wait =>
    obtain ⟨⟨hn, hw⟩, hv⟩ : (s.notified = true ∧ s.waiter = .pred false) ∧ s.value = false := by
      simpa [inTime] using hlate
    obtain rfl : { s with waiter := .block } = t := by simpa [step, waitStep, hw, hv] using hst
    exact stopLost_of_block rfl (hI.returned hn)
  | _ => cases hlate

/-- **No stop is lost in `waitFor`**, in any run in which no `stop()` notifies between a check's look at the token and
the block that follows it; and the first that does can be: the waiter blocks, `stop()` returns. -/
theorem waitFor_stopped {s : WaitFor} (hs : (machine.only inTime).Reachable s) : ¬ s.StopLost ∧
    ∀ a t, s.step a = some t → inTime s a = false → ∃ as u, machine.runFrom t as = some u ∧ u.StopLost := by
  have hI := reachable_stopInv hs.of_only
  refine ⟨fun hlost => ?_, fun a t hst hlate => stopLost_of_late hI hst hlate⟩
  have hawake : Awake s := hs.only_invariant nofun (fun s _ _ hI hok hst => awake_step (s := s) hI hok hst)
  exact (hawake (hI.notified (.inl hlost.1))).2 hlost.2

/-- A stop in time: the waiter is blocked, and woken. -/
theorem waitFor_stopped_blocked : ∃ s : WaitFor, s.returned = true ∧ s.waiter = .woken ∧ ¬ s.StopLost := by
  obtain ⟨s, hrun⟩ : ∃ s, (machine.only inTime).runFrom (machine.only inTime).init
      [.call, .wait, .wait, .wait, .wait, .stop, .stopStep, .stopStep, .stopStep] = some s := ⟨_, rfl⟩
  have hret : s.returned = true := by cases hrun; rfl
  have hw : s.waiter = .woken := by cases hrun; rfl
  exact ⟨s, hret, hw, (waitFor_stopped (Machine.reachable_of_run _ hrun)).1⟩

/-- **A stop can be lost**: all of `stop()` between the look at the token and the evaluation of `pred()`. -/
theorem exists_stopLost : ¬ ∀ s, machine.Reachable s → ¬ s.StopLost := by
  intro hall
  obtain ⟨s, hrun⟩ : ∃ s, machine.runFrom machine.init
      [.call, .wait, .wait, .stop, .stopStep, .stopStep, .stopStep, .wait, .wait] = some s := ⟨_, rfl⟩
  have hlost : s.StopLost := by cases hrun; exact ⟨rfl, rfl⟩
  exact hall s (Machine.reachable_of_run _ hrun) hlost

/-! ## The result -/

/-- **The result is what it should be**: true only if `pred()` evaluated to true, false at the end by the timeout and at
a stop while `pred()` is false. -/
def Right (s : WaitFor) (r : WaitReturn) : Prop :=
  (r.result = true → s.satisfied = true) ∧
  (r.timedOut = true → s.satisfied = false → r.result = false) ∧
  (r.sawStop = true → r.value = false → r.result = false)

/-- Where a call stands, `pred()` has evaluated to true only at its end; a stop that was seen is a result, too. -/
def ResultInv (s : WaitFor) : Prop :=
  match s.waiter with
  | .idle  => True
  | .ret r => r.result = (r.sawStop || s.satisfied) ∧ (r.sawStop = true → s.satisfied = false)
  | _      => s.satisfied = false

theorem ResultInv.same {s t : WaitFor} (h : ResultInv s) (hw : t.waiter = s.waiter)
    (hsat : t.satisfied = s.satisfied) : ResultInv t := by
  unfold ResultInv at h ⊢
  rw [hw, hsat]
  exact h

/-- The call has begun and is not at its end. -/
def inCall : WaitForPc → Bool
  | .idle  => false
  | .ret _ => false
  | _      => true

theorem ResultInv.unsatisfied {s : WaitFor} (h : ResultInv s) (hcall : inCall s.waiter = true) :
    s.satisfied = false := by
  unfold ResultInv at h
  split at h
  · rename_i hw; rw [hw] at hcall; cases hcall
  · rename_i r hw; rw [hw] at hcall; cases hcall
  · exact h

theorem ResultInv.waitStep {s t : WaitFor} (h : ResultInv s) (hst : s.waitStep = some t) : ResultInv t := by
  rcases waitStep_cases hst with ⟨hw, -, rfl⟩ | ⟨_, hw, -, rfl⟩ | ⟨_, hw, -, rfl⟩ | ⟨_, hw, -, rfl⟩ | ⟨hw, -, rfl⟩ |
    ⟨hw, -, rfl⟩ | ⟨hw, rfl⟩ | ⟨_, -, rfl⟩
  · exact h.unsatisfied (by rw [hw]; rfl)
  · exact ⟨rfl, fun _ => h.unsatisfied (by rw [hw]; rfl)⟩
  · exact h.unsatisfied (by rw [hw]; rfl)
  · exact ⟨rfl, nofun⟩
  · exact ⟨(h.unsatisfied (by rw [hw]; rfl)).symm, nofun⟩
  · exact h.unsatisfied (by rw [hw]; rfl)
  · exact h.unsatisfied (by rw [hw]; rfl)
  · exact trivial

theorem ResultInv.stopStep {s t : WaitFor} (h : ResultInv s) (hst : s.stopStep = some t) : ResultInv t := by
  rcases stopStep_cases hst with ⟨-, rfl⟩ | ⟨-, rfl⟩ | ⟨-, rfl⟩
  · exact h.same rfl rfl
  · rcases s.notifyAll_cases with ⟨hw, heq⟩ | ⟨-, heq⟩
    · rw [heq]
      exact h.unsatisfied (by rw [hw]; rfl)
    · rw [heq]; exact h.same rfl rfl
  · exact h.same rfl rfl

theorem resultInv_step {s t : WaitFor} {a : WaitAct} (h : ResultInv s) (hst : s.step a = some t) : ResultInv t := by
  rcases step_cases hst with ⟨-, -, rfl⟩ | ⟨-, hgo⟩ | ⟨hw, rfl⟩ | ⟨_, hw, -, rfl⟩ | ⟨-, -, rfl⟩ | ⟨-, hgo⟩ | rfl |
    ⟨v, m, rfl⟩
  · rfl
  · exact h.waitStep hgo
  · exact h.unsatisfied (by rw [hw]; rfl)
  · exact h.unsatisfied (by rw [hw]; rfl)
  · exact h.same rfl rfl
  · exact h.stopStep hgo
  · exact h.same rfl rfl
  · exact h.same rfl rfl

/-- **The result of `waitFor` is right** exactly if its last check saw no stop, whatever `pred()`, the notifications,
the wake-ups and the clock do. -/
theorem waitFor_result {s : WaitFor} (hs : machine.Reachable s) {r : WaitReturn} (hr : s.waiter = .ret r) :
    s.Right r ↔ r.sawStop = false := by
  have hI : ResultInv s := hs.invariant trivial (fun s _ _ hI hst => resultInv_step (s := s) hI hst)
  unfold ResultInv at hI
  rw [hr] at hI
  obtain ⟨hres, hsaw⟩ := hI
  constructor
  · rintro ⟨hsat, -, -⟩
    cases hstop : r.sawStop with
    | false => rfl
    | true =>
      rw [hstop, Bool.true_or] at hres
      have htrue := hsat hres
      rw [hsaw hstop] at htrue
      exact htrue.symm
  · intro hstop
    rw [hstop, Bool.false_or] at hres
    refine ⟨fun ht => hres ▸ ht, fun _ hno => hres.trans hno, fun ht => ?_⟩
    rw [hstop] at ht
    cases ht

/-- A wait that `pred()` ends, after a wake-up: true. -/
theorem waitFor_result_pred : ∃ (s : WaitFor) (r : WaitReturn), s.waiter = .ret r ∧ r.result = true ∧
    s.satisfied = true := by
  obtain ⟨s, hrun⟩ : ∃ s, machine.runFrom machine.init
      [.call, .wait, .wait, .wait, .wait, .change true, .wakeUp, .relock false, .wait, .wait] = some s := ⟨_, rfl⟩
  have hret : s.waiter = .ret { result := true, timedOut := false, sawStop := false, value := true } := by
    cases hrun; rfl
  have hright := (waitFor_result (Machine.reachable_of_run _ hrun) hret).2 rfl
  exact ⟨s, _, hret, rfl, hright.1 rfl⟩

/-- **A stop makes `waitFor` return true** while `pred()` has never been. -/
theorem exists_trueOnStop : ¬ ∀ s r, machine.Reachable s → s.waiter = .ret r → s.Right r := by
  intro hall
  obtain ⟨s, hrun⟩ : ∃ s, machine.runFrom machine.init
      [.call, .wait, .wait, .wait, .wait, .stop, .stopStep, .stopStep, .relock false, .wait] = some s := ⟨_, rfl⟩
  have hret : s.waiter = .ret { result := true, timedOut := false, sawStop := true, value := false } := by
    cases hrun; rfl
  have hright := hall s _ (Machine.reachable_of_run _ hrun) hret
  have hres := hright.2.2 rfl rfl
  cases hres

end WaitFor
end ThreadMessaging

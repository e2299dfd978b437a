import Mathlib.Data.Fintype.Option
import ThreadMessaging.ManagerFresh
import ThreadMessaging.MessageQueue
import ThreadMessaging.SpScWait
/-!
# Whom a stop wakes

A task's thread can sleep on one of three condition variables: the worker's own (`waitFor`), the one of its message
queue (`wait`, `wait_for`), or, if it is an observer, the one of its ring buffer (`wait_pop_for`).  `stopAllThreads`
requests a stop and then calls `wakeUp` on each task before it joins it, and `wakeUp` notifies the first of the three.

The queues, the command paths and the manager are those of the modules they come from.  A chain's thread tests its stop
token at the head of its loop and then waits; what a `Task` runs is any sequence of waits, of which `waitFor` tests the
token itself.  Everybody else, with any number of threads `P`, pushes to the queues and pops from them at will.

No stop notifies the other two condition variables, so what keeps a thread awake is its token: a thread that `wakeUp`
finds told to stop, and not already past its token's test and on the way into a block, comes by the token before it can
block again (`ready_step`).
-/
namespace ThreadMessaging

inductive CondVar
  | worker
  | queue
  | ring
  deriving DecidableEq, Repr

/-- Where a task's thread stands: past its stop test, in the wait of its loop, or in `waitFor`, to block, blocked or
woken. -/
inductive LoopPc
  | exited
  | head
  | enter
  | waiting
  | block
  | blocked
  | woken
  deriving DecidableEq, Repr

/-- `none` is the task's own thread, to its queue. -/
structure TaskThreads (P M : Type) where
  manager : ThreadManager
  queue   : TaskId → MessageQueue (Option P) M
  cmdPath : Nat → CommandPath ObserverCommand
  loop    : TaskId → LoopPc
  /-- `stopAllThreads` has called `wakeUp` on the task it is about to join. -/
  wokeUp  : Bool

/-- What can happen next: a step of the manager, its call of `wakeUp`, a step of a task's thread, what befalls a queue
or a command path otherwise.  `waitFor t pred` evaluates the predicate of `waitFor`, where `pred` is the caller's;
`wakeFor` is a spurious wake-up and `timeoutFor` its timeout. -/
inductive TaskThreadsAct (P M : Type)
  | manager (a : ManagerAct)
  | wakeUp
  | test (t : TaskId)
  | wait (t : TaskId) (c : PopCall)
  | ret (t : TaskId)
  | waitFor (t : TaskId) (pred : Bool)
  | blockFor (t : TaskId)
  | wakeFor (t : TaskId)
  | timeoutFor (t : TaskId)
  | leave (t : TaskId)
  | queue (t : TaskId) (a : QueueAct (Option P) M)
  | command (k : Nat) (a : CommandAct ObserverCommand)

namespace MessageQueue

variable {ι M : Type} [DecidableEq ι]

/-- Inside `wait` or `wait_for`, blocked or still to check whether to block. -/
def mayBlock : QueuePc M → Bool
  | .blocked _ => true
  | .woken _   => true
  | _          => false

theorem mayBlock_of_isBlocked {p : QueuePc M} (h : isBlocked p = true) : mayBlock p = true := by
  cases p <;> first | rfl | cases h

theorem pc_check_of_ne (s : MessageQueue ι M) {i j : ι} (c : PopCall) (timedOut : Bool) (h : j ≠ i) :
    (s.check i c timedOut).pc j = s.pc j := (s.check_flow i c timedOut).2 j h

/-- A `try_pop` does not block. -/
theorem mayBlock_check_tryPop (s : MessageQueue ι M) (i : ι) (timedOut : Bool) :
    mayBlock ((s.check i .tryPop timedOut).pc i) = false := by
  unfold check
  split
  · simp [popAndReturn, mayBlock]
  · simp [popAndReturn, mayBlock]

variable [Fintype ι] {s t : MessageQueue ι M} {a : QueueAct ι M}

/-- **A thread comes to where it may block only by a call of `wait` or `wait_for`.** -/
theorem mayBlock_step (hst : s.step a = some t) (i : ι) (hcall : ∀ c, a = .call i c → c = .tryPop)
    (h : mayBlock (t.pc i) = true) : mayBlock (s.pc i) = true := by
  have hmove : ∀ {j : ι} {p : QueuePc M}, (mayBlock p = true → mayBlock (s.pc j) = true) →
      mayBlock (Function.update s.pc j p i) = true → mayBlock (s.pc i) = true := by
    intro j p hp hi
    by_cases hij : i = j
    · rw [hij, Function.update_self] at hi
      rw [hij]
      exact hp hi
    · rwa [Function.update_of_ne hij] at hi
  rcases step_cases hst with ⟨j, msg, -, -, rfl⟩ | ⟨j, k, c, -, -, hk, rfl⟩ | ⟨j, -, -, -, rfl⟩ |
    ⟨j, c, timedOut, hact, rfl⟩ | ⟨k, c, -, hk, rfl⟩ | ⟨j, -, rfl⟩ | ⟨j, c, msg, seen, -, -, rfl⟩
  · exact hmove (fun hp => by cases hp) h
  · by_cases hik : i = k
    · rw [hik, hk]; rfl
    · have h : mayBlock (Function.update (Function.update s.pc j .idle) k (.woken c) i) = true := h
      rw [Function.update_of_ne hik] at h
      exact hmove (fun hp => by cases hp) h
  · exact hmove (fun hp => by cases hp) h
  · by_cases hij : i = j
    · subst hij
      rcases hact with ⟨rfl, rfl⟩ | ⟨-, hw⟩
      · obtain rfl := hcall c rfl
        rw [mayBlock_check_tryPop] at h
        cases h
      · rw [hw]; rfl
    · rwa [pc_check_of_ne s c timedOut hij] at h
  · exact hmove (fun _ => by rw [hk]; rfl) h
  · exact h
  · exact hmove (fun hp => by cases hp) h

end MessageQueue

namespace CommandPath

variable {T : Type}

/-- Inside `wait_pop_for`, blocked or still to come by the predicate before a block. -/
def mayBlock : WaiterPc T → Bool
  | .lock        => true
  | .check .loop => true
  | .block       => true
  | .blocked     => true
  | .woken       => true
  | _            => false

/-- The checks after the first go on to the pop or to the return. -/
theorem mayBlock_checked {s t : CommandPath T} {c : WaitCheck} {e : Bool} (hc : c ≠ .loop)
    (hst : s.checked c e = some t) : mayBlock t.waiter = false := by
  obtain ⟨r, -, hst⟩ := Option.bind_eq_some_iff.1 hst
  cases c with
  | loop => exact absurd rfl hc
  | deadline =>
    cases e with
    | true => cases hst; rfl
    | false =>
      obtain ⟨r', -, rfl⟩ := callEmpty_eq hst
      rfl
  | recheck =>
    cases e with
    | true => cases hst; rfl
    | false =>
      obtain ⟨r', -, rfl⟩ := Option.map_eq_some_iff.1 hst
      rfl

/-- **The observer comes to where it may block only by a call of `wait_pop_for`.** -/
theorem mayBlock_step {s t : CommandPath T} {a : CommandAct T} (hst : s.step a = some t) (ha : a ≠ .waitPopFor)
    (h : mayBlock t.waiter = true) : mayBlock s.waiter = true := by
  have hfrom : ∀ {p : WaiterPc T}, mayBlock p = true → s.waiter = p → mayBlock s.waiter = true :=
    fun hp hw => by rw [hw]; exact hp
  have hsame : t.waiter = s.waiter → mayBlock s.waiter = true := fun hw => by rwa [hw] at h
  have hring : ∀ {r : Option (Spsc T)} {p : Spsc T → SenderPc},
      r.map (fun r => { s with ring := r, sender := p r }) = some t → mayBlock s.waiter = true := by
    intro r p hr
    obtain ⟨r, -, rfl⟩ := Option.map_eq_some_iff.1 hr
    exact hsame rfl
  cases a with
  | sendCommand cmd =>
    simp only [step] at hst
    split at hst
    · exact hring hst
    · cases hst
  | sender b =>
    simp only [step] at hst
    split at hst
    · exact hring (p := fun _ => s.sender) hst
    · cases hst
  | pushed =>
    simp only [step] at hst
    split at hst
    · exact hring hst
    · cases hst
  | notifyOne =>
    simp only [step] at hst
    split at hst
    · rename_i hw; exact hfrom rfl hw
    · cases hst; exact hsame rfl
    · cases hst
  | sent =>
    simp only [step] at hst
    split at hst
    · cases hst; exact hsame rfl
    · cases hst
  | waitPopFor => exact absurd rfl ha
  | lock =>
    simp only [step] at hst
    split at hst
    · rename_i hw _; exact hfrom rfl hw
    · cases hst
  | waiter b =>
    simp only [step] at hst
    split at hst
    · exact hring (p := fun _ => s.sender) hst
    · exact hring (p := fun _ => s.sender) hst
    · cases hst
  | checked =>
    simp only [step] at hst
    split at hst
    · rename_i c e hw hc
      by_cases hloop : c = .loop
      · exact hfrom rfl (hloop ▸ hw)
      · rw [mayBlock_checked hloop hst] at h
        cases h
    · cases hst
  | block =>
    simp only [step] at hst
    split at hst
    · rename_i hw; exact hfrom rfl hw
    · cases hst
  | wake =>
    simp only [step] at hst
    split at hst
    · rename_i hw; exact hfrom rfl hw
    · cases hst
  | relock timedOut =>
    simp only [step] at hst
    split at hst
    · rename_i hw _; exact hfrom rfl hw
    · cases hst
  | popped =>
    simp only [step] at hst
    split at hst
    · obtain ⟨r, -, rfl⟩ := Option.map_eq_some_iff.1 hst
      cases h
    · cases hst
  | unlock =>
    simp only [step] at hst
    split at hst
    · cases hst; cases h
    · cases hst

end CommandPath

namespace TaskThreads

variable {P M : Type} [DecidableEq P] [Fintype P]

def init : TaskThreads P M where
  manager   := ThreadManager.init
  queue _   := (MessageQueue.machine (Option P) M).init
  cmdPath _ := CommandPath.init CommandPath.cmdBuffer
  loop _    := .exited
  wokeUp    := false

/-- The task that `stopAllThreads` is at. -/
def joined (s : TaskThreads P M) : Option TaskId :=
  match s.manager.pc with
  | .joining (t :: _) _ => some t
  | _                   => none

/-- **A task's thread is blocked un-notified** on one of its three condition variables. -/
def asleep (s : TaskThreads P M) (t : TaskId) : CondVar → Bool
  | .worker => s.loop t = .blocked
  | .queue  => MessageQueue.isBlocked ((s.queue t).pc none)
  | .ring   =>
    match t with
    | .chain k .observerIncoming => (s.cmdPath k).waiter = .blocked
    | _                          => false

def setLoop (s : TaskThreads P M) (t : TaskId) (p : LoopPc) : TaskThreads P M :=
  { s with loop := Function.update s.loop t p }

/-- `workerBase::wakeUp`: a `notify_all` on the worker's own condition variable. -/
def wakeUp (s : TaskThreads P M) (t : TaskId) : TaskThreads P M :=
  if s.asleep t .worker then s.setLoop t .woken else s

/-- The manager has moved on to `m`: a thread it has started is at the head of its loop. -/
def withManager (s : TaskThreads P M) (m : ThreadManager) : TaskThreads P M :=
  { s with
      manager := m
      loop    := fun t => if !s.manager.running t && m.running t then .head else s.loop t
      wokeUp  := false }

/-- The main thread is in no `sendCommand`. -/
def notSending (s : TaskThreads P M) : Bool := s.manager.observerIncoming.all (fun k => (s.cmdPath k).sender = .idle)

/-- A task's end is its thread's own step, and the commands go by the command paths; `stopAllThreads` joins a task after
it has called `wakeUp` on it. -/
def managerAllowed (s : TaskThreads P M) : ManagerAct → Bool
  | .finish _              => false
  | .popCommand _          => false
  | .sendObserverCommand _ => false
  | .join                  => s.joined.isNone || s.wokeUp
  | _                      => true

/-- What is not a step of the task's own thread into its wait or out of it. -/
def queueAllowed : QueueAct (Option P) M → Bool
  | .call none _ => false
  | .ret none    => false
  | _            => true

def commandAllowed (s : TaskThreads P M) (k : Nat) : CommandAct ObserverCommand → Bool
  | .sendCommand _ => s.manager.pc = .idle && s.manager.observerIncoming = some k
  | .waitPopFor    => false
  | .unlock        => false
  | _              => true

def queueStep (s : TaskThreads P M) (t : TaskId) (a : QueueAct (Option P) M) : Option (TaskThreads P M) :=
  ((s.queue t).step a).map (fun q => { s with queue := Function.update s.queue t q })

def commandStep (s : TaskThreads P M) (k : Nat) (a : CommandAct ObserverCommand) : Option (TaskThreads P M) :=
  ((s.cmdPath k).step a).map (fun p => { s with cmdPath := Function.update s.cmdPath k p })

/-- The end of a task's thread. -/
def exit (s : TaskThreads P M) (t : TaskId) : Option (TaskThreads P M) :=
  (s.manager.step (.finish t)).map (fun m => { s.setLoop t .exited with manager := m })

/-- The stop test of a chain's thread; what a `Task` runs is at no such place. -/
def testStep (s : TaskThreads P M) (t : TaskId) : Option (TaskThreads P M) :=
  match t, s.loop t with
  | .chain _ _, .head => if s.manager.told t then s.exit t else some (s.setLoop t .enter)
  | _, _              => none

/-- Into the wait: `wait_pop_for` for an observer, `wait_for` for the other four, any call for a `Task`. -/
def waitStep (s : TaskThreads P M) (t : TaskId) (c : PopCall) : Option (TaskThreads P M) :=
  match t, s.loop t with
  | .chain k .observerIncoming, .enter => (s.commandStep k .waitPopFor).map (fun u => u.setLoop t .waiting)
  | .chain _ _, .enter                 => if c = .waitFor then
                                            (s.queueStep t (.call none c)).map (fun u => u.setLoop t .waiting)
                                          else none
  | .user _, .head                     => (s.queueStep t (.call none c)).map (fun u => u.setLoop t .waiting)
  | _, _                               => none

def retStep (s : TaskThreads P M) (t : TaskId) : Option (TaskThreads P M) :=
  match t, s.loop t with
  | .chain k .observerIncoming, .waiting => (s.commandStep k .unlock).map (fun u => u.setLoop t .head)
  | _, .waiting                          => (s.queueStep t (.ret none)).map (fun u => u.setLoop t .head)
  | _, _                                 => none

/-- The predicate of `waitFor`, `stopToken.stop_requested() || pred()`, at its call and after a wake-up. -/
def waitForStep (s : TaskThreads P M) (t : TaskId) (pred : Bool) : Option (TaskThreads P M) :=
  let next := if s.manager.told t || pred then .head else .block
  match t, s.loop t with
  | .user _, .head  => some (s.setLoop t next)
  | .user _, .woken => some (s.setLoop t next)
  | _, _            => none

def step (s : TaskThreads P M) : TaskThreadsAct P M → Option (TaskThreads P M)
  | .manager a =>
    if s.managerAllowed a && s.notSending then (s.manager.step a).map s.withManager else none
  | .wakeUp =>
    match s.joined with
    | some t => if s.wokeUp then none else some { s.wakeUp t with wokeUp := true }
    | none   => none
  | .test t         => s.testStep t
  | .wait t c       => s.waitStep t c
  | .ret t          => s.retStep t
  | .waitFor t pred => s.waitForStep t pred
  | .blockFor t =>
    match s.loop t with
    | .block => some (s.setLoop t .blocked)
    | _      => none
  | .wakeFor t =>
    match s.loop t with
    | .blocked => some (s.setLoop t .woken)
    | _        => none
  | .timeoutFor t =>
    match s.loop t with
    | .blocked => some (s.setLoop t .head)
    | _        => none
  | .leave t =>
    match t, s.loop t with
    | .user _, .head => s.exit t
    | _, _           => none
  | .queue t a   => if queueAllowed a then s.queueStep t a else none
  | .command k a => if s.commandAllowed k a then s.commandStep k a else none

/-- A manager with its tasks' threads, in any order of steps. -/
def machine (P M : Type) [DecidableEq P] [Fintype P] : Machine (TaskThreads P M) (TaskThreadsAct P M) where
  init := init
  step := step

/-- **A stop has left a thread asleep**: `stopAllThreads` has called `wakeUp` on the task and is about to join it. -/
def LeftAsleep (s : TaskThreads P M) : Prop := s.wokeUp = true ∧ ∃ t cv, s.joined = some t ∧ s.asleep t cv = true

/-- The thread is between a test of its stop token and a block that would follow, or blocked in the wait of its loop. -/
def mayBlock (s : TaskThreads P M) (t : TaskId) : Bool :=
  s.loop t = .enter || s.loop t = .block || MessageQueue.mayBlock ((s.queue t).pc none) ||
    match t with
    | .chain k .observerIncoming => CommandPath.mayBlock (s.cmdPath k).waiter
    | _                          => false

/-- **The steps after which a stop leaves nobody asleep**: `wakeUp` is called on a task whose thread has ended or is
told by its token to stop, and is not past its test of it, and a `Task` starts no wait on its queue after that. -/
def inTime (s : TaskThreads P M) : TaskThreadsAct P M → Bool
  | .wakeUp           => s.joined.all (fun t => (s.loop t = .exited || s.manager.told t) && !s.mayBlock t)
  | .wait (.user i) c => c = .tryPop || !(s.wokeUp && s.joined = some (.user i))
  | _                 => true

/-- **A thread that comes by its token's test before it blocks again.** -/
structure Ready (s : TaskThreads P M) (t : TaskId) : Prop where
  told  : s.loop t ≠ .exited → s.manager.told t = true
  loop  : s.loop t ≠ .enter ∧ s.loop t ≠ .block ∧ s.loop t ≠ .blocked
  queue : MessageQueue.mayBlock ((s.queue t).pc none) = false
  ring  : ∀ k, t = .chain k .observerIncoming → CommandPath.mayBlock (s.cmdPath k).waiter = false

/-- Whom `stopAllThreads` has called `wakeUp` on is ready for its join. -/
def Settled (s : TaskThreads P M) : Prop := s.wokeUp = true → ∀ t, s.joined = some t → s.Ready t

section Ready

variable {s s' : TaskThreads P M} {t u : TaskId}

omit [DecidableEq P] [Fintype P] in
theorem exit_frame (hst : s.exit u = some s') : s'.loop = Function.update s.loop u .exited ∧ s'.queue = s.queue ∧
    s'.cmdPath = s.cmdPath ∧ (∀ t ≠ u, s'.manager.told t = s.manager.told t) ∧ s'.joined = s.joined ∧
    s'.wokeUp = s.wokeUp := by
  obtain ⟨m, hm, rfl⟩ := Option.map_eq_some_iff.1 hst
  simp only [ThreadManager.step] at hm
  split at hm
  · cases hm
    refine ⟨rfl, rfl, rfl, fun t ht => ?_, rfl, rfl⟩
    show (s.manager.setRun u (s.manager.run u).finish).told t = s.manager.told t
    unfold ThreadManager.told
    rw [ThreadManager.run_setRun_of_ne _ ht]
    rfl
  · cases hm

theorem queueStep_frame {a : QueueAct (Option P) M} (hst : s.queueStep u a = some s') :
    s'.loop = s.loop ∧ s'.joined = s.joined ∧ s'.wokeUp = s.wokeUp := by
  obtain ⟨q, -, rfl⟩ := Option.map_eq_some_iff.1 hst
  exact ⟨rfl, rfl, rfl⟩

omit [DecidableEq P] [Fintype P] in
theorem commandStep_frame {k : Nat} {a : CommandAct ObserverCommand} (hst : s.commandStep k a = some s') :
    s'.loop = s.loop ∧ s'.joined = s.joined ∧ s'.wokeUp = s.wokeUp := by
  obtain ⟨p, -, rfl⟩ := Option.map_eq_some_iff.1 hst
  exact ⟨rfl, rfl, rfl⟩

omit [DecidableEq P] [Fintype P] in
theorem Ready.not_asleep (h : s.Ready t) (cv : CondVar) : s.asleep t cv = false := by
  cases cv with
  | worker => exact decide_eq_false h.loop.2.2
  | queue =>
    cases hb : s.asleep t .queue with
    | false => rfl
    | true =>
      have := MessageQueue.mayBlock_of_isBlocked hb
      rw [h.queue] at this
      cases this
  | ring =>
    simp only [asleep]
    split
    · rename_i k
      refine decide_eq_false (fun hb => ?_)
      have := h.ring k rfl
      rw [hb] at this
      cases this
    · rfl

omit [DecidableEq P] [Fintype P] in
/-- `wakeUp` reaches a thread blocked in `waitFor`, which evaluates its predicate again. -/
theorem ready_wakeUp (htold : s.loop t ≠ .exited → s.manager.told t = true) (hm : s.mayBlock t = false) :
    (s.wakeUp t).Ready t := by
  simp only [mayBlock, Bool.or_eq_false_iff, decide_eq_false_iff_not] at hm
  obtain ⟨⟨⟨henter, hblock⟩, hqueue⟩, hring⟩ := hm
  have hring : ∀ k, t = .chain k .observerIncoming → CommandPath.mayBlock (s.cmdPath k).waiter = false := by
    rintro k rfl
    exact hring
  unfold wakeUp
  split
  · rename_i hblocked
    have hblocked : s.loop t = .blocked := of_decide_eq_true hblocked
    have hloop : (s.setLoop t .woken).loop t = .woken := Function.update_self ..
    exact ⟨fun _ => htold (by rw [hblocked]; exact nofun), by rw [hloop]; exact ⟨nofun, nofun, nofun⟩, hqueue, hring⟩
  · rename_i hblocked
    exact ⟨htold, ⟨henter, hblock, fun hb => hblocked (decide_eq_true hb)⟩, hqueue, hring⟩

omit [DecidableEq P] [Fintype P] in
/-- A move to a place from which no block follows. -/
theorem Ready.setLoop (h : s.Ready t) {p : LoopPc}
    (hp : u = t → s.loop t ≠ .exited ∧ p ≠ .enter ∧ p ≠ .block ∧ p ≠ .blocked) : (s.setLoop u p).Ready t := by
  by_cases hu : t = u
  · obtain ⟨hlive, hp⟩ := hp hu.symm
    have hloop : (s.setLoop u p).loop t = p := by rw [hu]; exact Function.update_self ..
    exact ⟨fun _ => h.told hlive, by rw [hloop]; exact hp, h.queue, h.ring⟩
  · have hloop : (s.setLoop u p).loop t = s.loop t := Function.update_of_ne hu ..
    exact ⟨by rw [hloop]; exact h.told, by rw [hloop]; exact h.loop, h.queue, h.ring⟩

omit [DecidableEq P] [Fintype P] in
theorem Ready.exit (h : s.Ready t) (hst : s.exit u = some s') : s'.Ready t := by
  obtain ⟨hloop, hqueue, hcmd, htold, -⟩ := exit_frame hst
  by_cases hu : t = u
  · have hend : s'.loop t = .exited := by rw [hloop, hu, Function.update_self]
    refine ⟨fun hne => absurd hend hne, ?_, by rw [hqueue]; exact h.queue, by rw [hcmd]; exact h.ring⟩
    rw [hend]
    decide
  · have hsame : s'.loop t = s.loop t := by rw [hloop, Function.update_of_ne hu]
    refine ⟨fun hne => ?_, by rw [hsame]; exact h.loop, by rw [hqueue]; exact h.queue, by rw [hcmd]; exact h.ring⟩
    rw [htold t hu]
    exact h.told (hsame ▸ hne)

theorem Ready.queueStep (h : s.Ready t) {a : QueueAct (Option P) M}
    (ha : u = t → ∀ c, a = .call none c → c = .tryPop) (hst : s.queueStep u a = some s') : s'.Ready t := by
  obtain ⟨q, hq, rfl⟩ := Option.map_eq_some_iff.1 hst
  refine ⟨h.told, h.loop, ?_, h.ring⟩
  show MessageQueue.mayBlock ((Function.update s.queue u q t).pc none) = false
  by_cases hu : t = u
  · subst hu
    rw [Function.update_self]
    cases hb : MessageQueue.mayBlock (q.pc none) with
    | false => rfl
    | true =>
      have := MessageQueue.mayBlock_step hq none (ha rfl) hb
      rw [h.queue] at this
      cases this
  · rw [Function.update_of_ne hu]
    exact h.queue

omit [DecidableEq P] [Fintype P] in
theorem Ready.commandStep (h : s.Ready t) {k : Nat} {a : CommandAct ObserverCommand}
    (ha : t = .chain k .observerIncoming → a ≠ .waitPopFor) (hst : s.commandStep k a = some s') : s'.Ready t := by
  obtain ⟨p, hp, rfl⟩ := Option.map_eq_some_iff.1 hst
  refine ⟨h.told, h.loop, h.queue, fun j hj => ?_⟩
  show CommandPath.mayBlock (Function.update s.cmdPath k p j).waiter = false
  by_cases hk : j = k
  · subst hk
    rw [Function.update_self]
    cases hb : CommandPath.mayBlock p.waiter with
    | false => rfl
    | true =>
      have := CommandPath.mayBlock_step hp (ha hj) hb
      rw [h.ring j hj] at this
      cases this
  · rw [Function.update_of_ne hk]
    exact h.ring j hj

/-! ## A ready thread stays ready -/

omit [DecidableEq P] [Fintype P] in
/-- **A chain's thread that is told to stop ends at its next test.** -/
theorem ready_test (h : s.Ready t) (hst : s.testStep u = some s') : s'.Ready t := by
  unfold testStep at hst
  split at hst
  · rename_i k r hpc
    split at hst
    · exact h.exit hst
    · rename_i hno
      cases hst
      refine h.setLoop (fun hu => ?_)
      subst hu
      exact absurd (h.told (by rw [hpc]; exact nofun)) hno
  · cases hst

theorem ready_wait (h : s.Ready t) {c : PopCall} (hc : ∀ i, u = .user i → u = t → c = .tryPop)
    (hst : s.waitStep u c = some s') : s'.Ready t := by
  unfold waitStep at hst
  split at hst
  · rename_i k hpc
    obtain ⟨v, hv, rfl⟩ := Option.map_eq_some_iff.1 hst
    have hne : TaskId.chain k .observerIncoming ≠ t := fun hu => h.loop.1 (hu ▸ hpc)
    exact (h.commandStep (fun hu => absurd hu.symm hne) hv).setLoop (fun hu => absurd hu hne)
  · rename_i k r _ hpc
    split at hst
    · obtain ⟨v, hv, rfl⟩ := Option.map_eq_some_iff.1 hst
      have hne : TaskId.chain k r ≠ t := fun hu => h.loop.1 (hu ▸ hpc)
      exact (h.queueStep (fun hu => absurd hu hne) hv).setLoop (fun hu => absurd hu hne)
    · cases hst
  · rename_i i hpc
    obtain ⟨v, hv, rfl⟩ := Option.map_eq_some_iff.1 hst
    refine (h.queueStep (fun hu c' hc' => ?_) hv).setLoop (fun hu => ?_)
    · cases hc'
      exact hc i rfl hu
    · subst hu
      rw [(queueStep_frame hv).1, hpc]
      exact ⟨nofun, nofun, nofun, nofun⟩
  · cases hst

theorem ready_ret (h : s.Ready t) (hst : s.retStep u = some s') : s'.Ready t := by
  unfold retStep at hst
  split at hst
  · rename_i k hpc
    obtain ⟨v, hv, rfl⟩ := Option.map_eq_some_iff.1 hst
    refine (h.commandStep (a := .unlock) (fun _ he => by cases he) hv).setLoop (fun hu => ?_)
    subst hu
    rw [(commandStep_frame hv).1, hpc]
    exact ⟨nofun, nofun, nofun, nofun⟩
  · rename_i hpc
    obtain ⟨v, hv, rfl⟩ := Option.map_eq_some_iff.1 hst
    refine (h.queueStep (a := .ret none) (fun _ c he => by cases he) hv).setLoop (fun hu => ?_)
    subst hu
    rw [(queueStep_frame hv).1, hpc]
    exact ⟨nofun, nofun, nofun, nofun⟩
  · cases hst

omit [DecidableEq P] [Fintype P] in
/-- **A `waitFor` of a task that is told to stop returns at its predicate.** -/
theorem ready_waitFor (h : s.Ready t) {pred : Bool} (hst : s.waitForStep u pred = some s') : s'.Ready t := by
  have hnext : ∀ {p : LoopPc}, s.loop u = p → p ≠ .exited →
      (s.setLoop u (if s.manager.told u || pred then .head else .block)).Ready t := by
    intro p hpc hp
    refine h.setLoop (fun hu => ?_)
    subst hu
    have hlive : s.loop u ≠ .exited := hpc ▸ hp
    rw [h.told hlive, Bool.true_or, if_pos rfl]
    exact ⟨hlive, nofun, nofun, nofun⟩
  unfold waitForStep at hst
  dsimp only at hst
  split at hst
  · rename_i hpc
    cases hst
    exact hnext hpc nofun
  · rename_i hpc
    cases hst
    exact hnext hpc nofun
  · cases hst

/-- **A step of a thread, a queue or a command path** leaves a ready thread ready. -/
theorem ready_step {a : TaskThreadsAct P M} (h : s.Ready t) (hm : ∀ b, a ≠ .manager b) (hw : a ≠ .wakeUp)
    (hc : ∀ c, a = .wait t c → ∀ i, t = .user i → c = .tryPop) (hst : s.step a = some s') : s'.Ready t := by
  cases a with
  | manager b => exact absurd rfl (hm b)
  | wakeUp => exact absurd rfl hw
  | test u => exact ready_test h hst
  | wait u c => exact ready_wait h (fun i hi hu => hc c (by rw [hu]) i (hu ▸ hi)) hst
  | ret u => exact ready_ret h hst
  | waitFor u pred => exact ready_waitFor h hst
  | blockFor u =>
    simp only [step] at hst
    split at hst
    · rename_i hpc
      cases hst
      exact h.setLoop (fun hu => absurd (hu ▸ hpc) h.loop.2.1)
    · cases hst
  | wakeFor u =>
    simp only [step] at hst
    split at hst
    · rename_i hpc
      cases hst
      exact h.setLoop (fun hu => absurd (hu ▸ hpc) h.loop.2.2)
    · cases hst
  | timeoutFor u =>
    simp only [step] at hst
    split at hst
    · rename_i hpc
      cases hst
      exact h.setLoop (fun hu => absurd (hu ▸ hpc) h.loop.2.2)
    · cases hst
  | leave u =>
    simp only [step] at hst
    split at hst
    · exact h.exit hst
    · cases hst
  | queue u a =>
    simp only [step] at hst
    split at hst
    · rename_i hok
      refine h.queueStep (fun _ c hc => ?_) hst
      subst hc
      cases hok
    · cases hst
  | command k a =>
    simp only [step] at hst
    split at hst
    · rename_i hok
      refine h.commandStep (fun _ ha => ?_) hst
      subst ha
      cases hok
    · cases hst

end Ready

/-! ## A stop -/

section Stop

variable {s s' : TaskThreads P M}

/-- The step is beside the main thread's: the call of `stopAllThreads` stands where it stood. -/
def Beside (s s' : TaskThreads P M) : Prop := s'.joined = s.joined ∧ s'.wokeUp = s.wokeUp

theorem beside_queueStep {t : TaskId} {a : QueueAct (Option P) M} {p : LoopPc}
    (hst : (s.queueStep t a).map (fun u => u.setLoop t p) = some s') : Beside s s' := by
  obtain ⟨u, hu, rfl⟩ := Option.map_eq_some_iff.1 hst
  exact (queueStep_frame hu).2

omit [DecidableEq P] [Fintype P] in
theorem beside_commandStep {k : Nat} {t : TaskId} {a : CommandAct ObserverCommand} {p : LoopPc}
    (hst : (s.commandStep k a).map (fun u => u.setLoop t p) = some s') : Beside s s' := by
  obtain ⟨u, hu, rfl⟩ := Option.map_eq_some_iff.1 hst
  exact (commandStep_frame hu).2

theorem beside_step {a : TaskThreadsAct P M} (hst : s.step a = some s') (hm : ∀ b, a ≠ .manager b)
    (hw : a ≠ .wakeUp) : Beside s s' := by
  cases a with
  | manager b => exact absurd rfl (hm b)
  | wakeUp => exact absurd rfl hw
  | test t =>
    simp only [step, testStep] at hst
    split at hst
    · split at hst
      · exact (exit_frame hst).2.2.2.2
      · cases hst; exact ⟨rfl, rfl⟩
    · cases hst
  | wait t c =>
    simp only [step, waitStep] at hst
    split at hst
    · exact beside_commandStep hst
    · split at hst
      · exact beside_queueStep hst
      · cases hst
    · exact beside_queueStep hst
    · cases hst
  | ret t =>
    simp only [step, retStep] at hst
    split at hst
    · exact beside_commandStep hst
    · exact beside_queueStep hst
    · cases hst
  | waitFor t pred =>
    simp only [step, waitForStep] at hst
    split at hst
    · cases hst; exact ⟨rfl, rfl⟩
    · cases hst; exact ⟨rfl, rfl⟩
    · cases hst
  | blockFor t =>
    simp only [step] at hst
    split at hst
    · cases hst; exact ⟨rfl, rfl⟩
    · cases hst
  | wakeFor t =>
    simp only [step] at hst
    split at hst
    · cases hst; exact ⟨rfl, rfl⟩
    · cases hst
  | timeoutFor t =>
    simp only [step] at hst
    split at hst
    · cases hst; exact ⟨rfl, rfl⟩
    · cases hst
  | leave t =>
    simp only [step] at hst
    split at hst
    · exact (exit_frame hst).2.2.2.2
    · cases hst
  | queue t a =>
    simp only [step] at hst
    split at hst
    · exact (queueStep_frame hst).2
    · cases hst
  | command k a =>
    simp only [step] at hst
    split at hst
    · exact (commandStep_frame hst).2
    · cases hst

omit [Fintype P] [DecidableEq P] in
/-- `wakeUp` leaves no thread blocked in `waitFor`, and touches no queue and no ring buffer. -/
theorem asleep_wakeUp (s : TaskThreads P M) (t : TaskId) : (s.wakeUp t).joined = s.joined ∧
    (s.wakeUp t).asleep t .worker = false ∧ (s.wakeUp t).asleep t .queue = s.asleep t .queue ∧
    (s.wakeUp t).asleep t .ring = s.asleep t .ring := by
  unfold wakeUp
  split
  · refine ⟨rfl, decide_eq_false ?_, rfl, rfl⟩
    show Function.update s.loop t .woken t ≠ .blocked
    rw [Function.update_self]
    exact nofun
  · rename_i hno
    exact ⟨rfl, by simpa using hno, rfl, rfl⟩

/-- **One step that is in time.** -/
theorem settled_step {a : TaskThreadsAct P M} (h : s.Settled) (hok : inTime s a = true) (hst : s.step a = some s') :
    s'.Settled := by
  by_cases hm : ∃ b, a = .manager b
  · -- the manager's own steps end the call of `wakeUp`
    obtain ⟨b, rfl⟩ := hm
    simp only [step] at hst
    split at hst
    · obtain ⟨m, -, rfl⟩ := Option.map_eq_some_iff.1 hst
      exact nofun
    · cases hst
  by_cases hw : a = .wakeUp
  · subst hw
    simp only [step] at hst
    split at hst
    · rename_i t hj
      split at hst
      · cases hst
      · cases hst
        rintro - u hu
        obtain rfl : t = u := Option.some.inj (hj.symm.trans ((asleep_wakeUp s t).1.symm.trans hu))
        simp only [inTime, hj, Option.all_some, Bool.and_eq_true, Bool.or_eq_true, decide_eq_true_eq,
          Bool.not_eq_true'] at hok
        have hready := ready_wakeUp (fun hne => hok.1.resolve_left hne) hok.2
        exact ⟨hready.told, hready.loop, hready.queue, hready.ring⟩
    · cases hst
  have hm : ∀ b, a ≠ .manager b := fun b hb => hm ⟨b, hb⟩
  obtain ⟨hjoined, hwokeUp⟩ := beside_step hst hm hw
  intro hwoke t hj
  rw [hwokeUp] at hwoke
  rw [hjoined] at hj
  refine ready_step (h hwoke t hj) hm hw (fun c ha i hi => ?_) hst
  subst ha
  subst hi
  simpa [inTime, hwoke, hj] using hok

/-- **Whom a call of `wakeUp` leaves asleep**: who is blocked on its queue or its ring buffer. -/
theorem leftAsleep_wakeUp {t : TaskId} (hst : s.step .wakeUp = some s') (hj : s.joined = some t) :
    s'.LeftAsleep ↔ s.asleep t .queue = true ∨ s.asleep t .ring = true := by
  simp only [step, hj] at hst
  split at hst
  · cases hst
  · cases hst
    obtain ⟨hjoined, hworker, hqueue, hring⟩ := asleep_wakeUp s t
    rw [← hqueue, ← hring]
    constructor
    · rintro ⟨-, u, cv, hu, hasleep⟩
      obtain rfl : t = u := Option.some.inj (hj.symm.trans (hjoined.symm.trans hu))
      cases cv with
      | worker => exact absurd (hworker.symm.trans hasleep) nofun
      | queue => exact .inl hasleep
      | ring => exact .inr hasleep
    · rintro (hasleep | hasleep)
      · exact ⟨rfl, t, .queue, hjoined.trans hj, hasleep⟩
      · exact ⟨rfl, t, .ring, hjoined.trans hj, hasleep⟩

/-- **A stop leaves no thread asleep** in any run in which `wakeUp` is called on no thread that is past its test of its
stop token and may still block, or that its token does not tell, and no `Task` starts a wait once it has been called
on it; a thread that is blocked on its queue or its ring buffer when it is called is left so. -/
theorem stop_wakes (hs : ((machine P M).only inTime).Reachable s) : ¬ s.LeftAsleep ∧
    ∀ s' t, s.step .wakeUp = some s' → s.joined = some t →
      (s'.LeftAsleep ↔ s.asleep t .queue = true ∨ s.asleep t .ring = true) := by
  have hsettled : s.Settled := hs.only_invariant (I := Settled) (fun hw => by cases hw)
    (fun s a s' h hok hst => settled_step h hok hst)
  refine ⟨?_, fun s' t hst hj => leftAsleep_wakeUp hst hj⟩
  rintro ⟨hwoke, t, cv, hj, hasleep⟩
  rw [(hsettled hwoke t hj).not_asleep cv] at hasleep
  cases hasleep

end Stop

/-- Five threads of a chain that come by their token's test, and a `Task` blocked in `waitFor` at its `wakeUp`. -/
theorem stop_wakes_running : ∃ s : TaskThreads (Fin 1) Nat, s.wokeUp = true ∧ s.joined = some (.user 7) ∧
    s.loop (.user 7) = .woken ∧ (∀ t, s.loop (.chain 0 t) = .exited) ∧ ¬ s.LeftAsleep := by
  obtain ⟨s, hrun⟩ : ∃ s, ((machine (Fin 1) Nat).only inTime).runFrom ((machine (Fin 1) Nat).only inTime).init
      [.manager .initTestChain, .manager (.start true), .manager (.start true), .manager (.start true),
       .manager (.start true), .manager (.start true), .manager .done, .manager (.addTask (some 7)),
       .manager (.start true), .manager .done,
       -- the processing task is given a message, the `Task` waits for its predicate
       .queue (.chain 0 .processing) (.push (some 0) (some 5)), .test (.chain 0 .processing),
       .wait (.chain 0 .processing) .waitFor, .waitFor (.user 7) false, .blockFor (.user 7),
       .manager .stopAllThreads, .ret (.chain 0 .processing),
       .wakeUp, .test (.chain 0 .observerIncoming), .manager .join,
       .wakeUp, .test (.chain 0 .appObserver), .manager .join,
       .wakeUp, .test (.chain 0 .processing), .manager .join,
       .wakeUp, .test (.chain 0 .transformation), .manager .join,
       .wakeUp, .test (.chain 0 .result), .manager .join, .wakeUp] = some s := ⟨_, rfl⟩
  have hwoke : s.wokeUp = true := by cases hrun; rfl
  have hjoined : s.joined = some (.user 7) := by cases hrun; rfl
  have hloop : s.loop (.user 7) = .woken := by cases hrun; rfl
  have hchain : ∀ t, s.loop (.chain 0 t) = .exited := by cases hrun; intro t; cases t <;> rfl
  exact ⟨s, hwoke, hjoined, hloop, hchain, (stop_wakes (Machine.reachable_of_run _ hrun)).1⟩

/-- **A stop can leave a thread asleep**: a `Task` in `wait`, for ever. -/
theorem exists_leftAsleep : ¬ ∀ s, (machine (Fin 1) Nat).Reachable s → s.wokeUp = true → ∀ t, s.joined = some t →
    ∀ cv, s.asleep t cv = false := by
  intro hall
  obtain ⟨s, hrun⟩ : ∃ s, (machine (Fin 1) Nat).runFrom (machine (Fin 1) Nat).init
      [.manager (.addTask (some 7)), .manager (.start true), .manager .done, .wait (.user 7) .wait,
       .manager .stopAllThreads, .wakeUp] = some s := ⟨_, rfl⟩
  have hwoke : s.wokeUp = true := by cases hrun; rfl
  have hjoined : s.joined = some (.user 7) := by cases hrun; rfl
  have hasleep : s.asleep (.user 7) .queue = true := by cases hrun; rfl
  have := hall s (Machine.reachable_of_run _ hrun) hwoke _ hjoined .queue
  rw [hasleep] at this
  cases this

/-- The observer blocked on its empty buffer when `stopAllThreads` calls `wakeUp` on it. -/
example : (((machine (Fin 1) Nat).runFrom (machine (Fin 1) Nat).init
    [.manager .initTestChain, .manager (.start true), .manager (.start true), .manager (.start true),
     .manager (.start true), .manager (.start true), .manager .done, .test (.chain 0 .observerIncoming),
     .wait (.chain 0 .observerIncoming) .waitFor, .command 0 .lock, .command 0 (.waiter .consumer),
     .command 0 (.waiter (.consumerLoads 0)), .command 0 .checked, .command 0 .block, .manager .stopAllThreads,
     .wakeUp]).map (fun s => (s.joined, s.wokeUp, s.asleep (.chain 0 .observerIncoming) .ring))) =
    some (some (.chain 0 .observerIncoming), true, true) := rfl

end TaskThreads
end ThreadMessaging

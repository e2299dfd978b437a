import ThreadMessaging.TestThreads
import ThreadMessaging.ThreadManager
import ThreadMessaging.MessageQueue
import ThreadMessaging.SpScWait
/-!
# The running chain

The five threads of one `initTestChain`, their inbound queues, the observer's command path and the manager that stops
and restarts them.  Each queue is a `MessageQueue` of its own, the command path a `CommandPath`, the manager a
`ThreadManager`: a step inside one of them is a step of it.  A thread's own steps are its loop's: the test of the stop
token, the wait for a message (or a command), the type test, and for each Send the push and the `notify_one`.

`sent` are the FileEvents the observer has pushed, `finished` those whose results the result task is done with,
`discarded` the messages that failed their task's cast.
-/
namespace ThreadMessaging

/-- Where a thread stands in its loop; the places from `waitCommand` to `emit` are the observer's. -/
inductive ChainPc
  | exited
  | head
  | waiting
  | got (msg : Option Payload)
  | sending (rest : List (ChainTask × Payload))
  | notifying (r : ChainTask) (rest : List (ChainTask × Payload))
  | waitCommand
  | commanded (cmd : Option ObserverCommand)
  | autoExit
  | pauseCheck
  | emit
  deriving DecidableEq, Repr

structure Chain where
  manager       : ThreadManager
  queue         : ChainTask → MessageQueue ChainTask Payload
  cmdPath       : CommandPath ObserverCommand
  observer      : Observer
  count         : Int32
  mirrorCounter : Int32
  pc            : ChainTask → ChainPc
  sent          : List FileEvent
  finished      : List FileEvent
  discarded     : List (ChainTask × Payload)

/-- What can happen next: a step of the manager, of the command path, of a thread (with the clock it reads, if it does),
a thread's notification, and what befalls a thread in `wait_for`. -/
inductive ChainAct
  | manager (a : ManagerAct)
  | command (a : CommandAct ObserverCommand)
  | go (t : ChainTask) (now : TimePoint)
  | notify (t : ChainTask) (target : Option ChainTask)
  | wake (t : ChainTask)
  | recheck (t : ChainTask) (timedOut : Bool)
  deriving DecidableEq, Repr

namespace Chain

def init : Chain where
  manager       := ThreadManager.init
  queue _       := (MessageQueue.machine ChainTask Payload).init
  cmdPath       := CommandPath.init CommandPath.cmdBuffer
  observer      := {}
  count         := 0
  mirrorCounter := 0
  pc _          := .exited
  sent          := []
  finished      := []
  discarded     := []

def taskId (t : ChainTask) : TaskId := .chain 0 t

def stopRequested (s : Chain) (t : ChainTask) : Bool :=
  (s.manager.run (taskId t)).stopped || (s.manager.run (taskId t)).token.any s.manager.requested

def setPc (s : Chain) (t : ChainTask) (c : ChainPc) : Chain := { s with pc := Function.update s.pc t c }

def queueStep (s : Chain) (r : ChainTask) (a : QueueAct ChainTask Payload) : Option Chain :=
  ((s.queue r).step a).map (fun q => { s with queue := Function.update s.queue r q })

/-- Into the wait of the loop: for a command, or for a message. -/
def waitStep (s : Chain) : ChainTask → Option Chain
  | .observerIncoming => (s.cmdPath.step .waitPopFor).map (fun p => { s.setPc .observerIncoming .waitCommand with
                                                                        cmdPath := p })
  | t                 => (s.queueStep t (.call t .waitFor)).map (fun u => u.setPc t .waiting)

/-- The type test, and what the loop does with the message. -/
def handleStep (s : Chain) (t : ChainTask) (p : Payload) : Chain :=
  match handles s.mirrorCounter t p with
  | some sends => { s.setPc t (.sending sends) with
                      finished      := if t = .result then s.finished ++ p.carried else s.finished
                      mirrorCounter := if t = .appObserver then s.mirrorCounter + 1 else s.mirrorCounter }
  | none       => { s.setPc t .head with discarded := s.discarded ++ [(t, p)] }

def goStep (s : Chain) (t : ChainTask) (now : TimePoint) : Option Chain :=
  match s.pc t with
  | .head =>
    if s.stopRequested t then
      (s.manager.step (.finish (taskId t))).map (fun m => { s.setPc t .exited with manager := m })
    else s.waitStep t
  | .waiting =>
    match (s.queue t).pc t with
    | .ret _ msg _ => (s.queueStep t (.ret t)).map (fun u => u.setPc t (.got msg))
    | _            => none
  | .got none                => some (s.setPc t .head)
  | .got (some p)            => some (s.handleStep t p)
  | .sending []              => some (s.setPc t .head)
  | .sending ((r, p) :: rest) =>
    (s.queueStep r (.push t (some p))).map (fun u =>
      { u.setPc t (.notifying r rest) with
          sent := if t = .observerIncoming then u.sent ++ p.carried else u.sent })
  | .waitCommand =>
    match s.cmdPath.waiter with
    | .ret cmd => (s.cmdPath.step .unlock).map (fun p => { s.setPc t (.commanded cmd) with cmdPath := p })
    | _        => none
  | .commanded (some cmd) => some { s.setPc t .autoExit with observer := s.observer.applyCommand cmd now }
  | .commanded none       => some (s.setPc t .autoExit)
  | .autoExit             => some { s.setPc t .pauseCheck with observer := s.observer.autoExit now }
  | .pauseCheck           => some (s.setPc t (if s.observer.paused now then .head else .emit))
  | .emit                 => some { s.setPc t (.sending (observerSends (s.count + 1) now)) with count := s.count + 1 }
  | _                     => none

/-- The operations of the manager this chain is under: one `initTestChain`, then stops and restarts. -/
def allowed (s : Chain) : ManagerAct → Bool
  | .initTestChain    => s.manager.chains = 0
  | .restartAllThreads => true
  | .stopAllThreads   => true
  | .requestStop      => true
  | .start _          => true
  | .join             => true
  | .done             => true
  | _                 => false

/-- The manager has moved on to `m`: a thread it has started enters its loop, its locals new. -/
def withManager (s : Chain) (m : ThreadManager) : Chain :=
  let started := fun t => !s.manager.running (taskId t) && m.running (taskId t)
  { s with
      manager       := m
      pc            := fun t => if started t then .head else s.pc t
      count         := if started .observerIncoming then 0 else s.count
      mirrorCounter := if started .appObserver then 0 else s.mirrorCounter }

/-- The steps of the command path that are not the observer's own; the main thread sends between its operations. -/
def commandAllowed (s : Chain) : CommandAct ObserverCommand → Bool
  | .sendCommand _ => s.manager.pc = .idle && s.manager.observerIncoming = some 0
  | .waitPopFor    => false
  | .unlock        => false
  | _              => true

def step (s : Chain) : ChainAct → Option Chain
  | .manager a =>
    if s.allowed a && s.cmdPath.sender = .idle then (s.manager.step a).map s.withManager else none
  | .command a =>
    if s.commandAllowed a then (s.cmdPath.step a).map (fun p => { s with cmdPath := p }) else none
  | .go t now => s.goStep t now
  | .notify t target =>
    match s.pc t with
    | .notifying r rest => (s.queueStep r (.notifyOne t target)).map (fun u => u.setPc t (.sending rest))
    | _                 => none
  | .wake t =>
    match s.pc t with
    | .waiting => s.queueStep t (.wake t)
    | _        => none
  | .recheck t timedOut =>
    match s.pc t with
    | .waiting => s.queueStep t (.recheck t timedOut)
    | _        => none

def machine : Machine Chain ChainAct where
  init := init
  step := step

/-! ## What the steps can be -/

/-- A thread's moves that touch no message, no command and no stop token. -/
inductive Turns : ChainPc → ChainPc → Prop
  | timedOut                                 : Turns (.got none) .head
  | allSent                                  : Turns (.sending []) .head
  | commanded (cmd : Option ObserverCommand) : Turns (.commanded cmd) .autoExit
  | autoExit                                 : Turns .autoExit .pauseCheck
  | paused                                   : Turns .pauseCheck .head
  | due                                      : Turns .pauseCheck .emit

/-- Thread `t` goes on to `c`, and at most the threads' own data change with it. -/
structure GoesOn (s s' : Chain) (t : ChainTask) (c : ChainPc) : Prop where
  pc        : s'.pc = Function.update s.pc t c
  manager   : s'.manager = s.manager
  queue     : s'.queue = s.queue
  cmdPath   : s'.cmdPath = s.cmdPath
  sent      : s'.sent = s.sent
  finished  : s'.finished = s.finished
  discarded : s'.discarded = s.discarded

theorem queueStep_eq {s u : Chain} {r : ChainTask} {a : QueueAct ChainTask Payload} (h : s.queueStep r a = some u) :
    ∃ q, (s.queue r).step a = some q ∧ u = { s with queue := Function.update s.queue r q } := by
  obtain ⟨q, hq, rfl⟩ := Option.map_eq_some_iff.1 h
  exact ⟨q, hq, rfl⟩

/-- **What a step of a thread can be**: a move, the end of its run, the start or the end of a wait, the type test, a
push, or the observer's event. -/
theorem goStep_cases {s s' : Chain} {t : ChainTask} {now : TimePoint} (hst : s.goStep t now = some s') :
    (∃ c, Turns (s.pc t) c ∧ GoesOn s s' t c) ∨
    (s.pc t = .head ∧ ∃ m, s.manager.step (.finish (taskId t)) = some m ∧
      s' = { s.setPc t .exited with manager := m }) ∨
    (s.pc t = .head ∧ t = .observerIncoming ∧ ∃ p, s.cmdPath.step .waitPopFor = some p ∧
      s' = { s.setPc t .waitCommand with cmdPath := p }) ∨
    (s.pc t = .head ∧ t ≠ .observerIncoming ∧ ∃ q, (s.queue t).step (.call t .waitFor) = some q ∧
      s' = ({ s with queue := Function.update s.queue t q } : Chain).setPc t .waiting) ∨
    (∃ msg q, s.pc t = .waiting ∧ MessageQueue.result ((s.queue t).pc t) = msg ∧ (s.queue t).step (.ret t) = some q ∧
      s' = ({ s with queue := Function.update s.queue t q } : Chain).setPc t (.got msg)) ∨
    (∃ p, s.pc t = .got (some p) ∧ s' = s.handleStep t p) ∨
    (∃ r p rest q, s.pc t = .sending ((r, p) :: rest) ∧ (s.queue r).step (.push t (some p)) = some q ∧
      s' = { ({ s with queue := Function.update s.queue r q } : Chain).setPc t (.notifying r rest) with
        sent := if t = .observerIncoming then s.sent ++ p.carried else s.sent }) ∨
    (∃ cmd p, s.pc t = .waitCommand ∧ s.cmdPath.step .unlock = some p ∧
      s' = { s.setPc t (.commanded cmd) with cmdPath := p }) ∨
    (s.pc t = .emit ∧ s' = { s.setPc t (.sending (observerSends (s.count + 1) now)) with count := s.count + 1 }) := by
  unfold goStep at hst
  split at hst
  · rename_i hpc
    split at hst
    · obtain ⟨m, hm, rfl⟩ := Option.map_eq_some_iff.1 hst
      exact .inr (.inl ⟨hpc, m, hm, rfl⟩)
    · unfold waitStep at hst
      split at hst
      · obtain ⟨p, hp, rfl⟩ := Option.map_eq_some_iff.1 hst
        exact .inr (.inr (.inl ⟨hpc, rfl, p, hp, rfl⟩))
      · rename_i hne
        obtain ⟨u, hu, rfl⟩ := Option.map_eq_some_iff.1 hst
        obtain ⟨q, hq, rfl⟩ := queueStep_eq hu
        exact .inr (.inr (.inr (.inl ⟨hpc, hne, q, hq, rfl⟩)))
  · rename_i hpc
    split at hst
    · rename_i c msg seen hret
      obtain ⟨u, hu, rfl⟩ := Option.map_eq_some_iff.1 hst
      obtain ⟨q, hq, rfl⟩ := queueStep_eq hu
      exact .inr (.inr (.inr (.inr (.inl ⟨msg, q, hpc, by rw [hret]; rfl, hq, rfl⟩))))
    · cases hst
  · rename_i hpc
    cases hst
    exact .inl ⟨_, by rw [hpc]; exact .timedOut, rfl, rfl, rfl, rfl, rfl, rfl, rfl⟩
  · rename_i p hpc
    cases hst
    exact .inr (.inr (.inr (.inr (.inr (.inl ⟨p, hpc, rfl⟩)))))
  · rename_i hpc
    cases hst
    exact .inl ⟨_, by rw [hpc]; exact .allSent, rfl, rfl, rfl, rfl, rfl, rfl, rfl⟩
  · rename_i r p rest hpc
    obtain ⟨u, hu, rfl⟩ := Option.map_eq_some_iff.1 hst
    obtain ⟨q, hq, rfl⟩ := queueStep_eq hu
    exact .inr (.inr (.inr (.inr (.inr (.inr (.inl ⟨r, p, rest, q, hpc, hq, rfl⟩))))))
  · rename_i hpc
    split at hst
    · rename_i cmd hret
      obtain ⟨p, hp, rfl⟩ := Option.map_eq_some_iff.1 hst
      exact .inr (.inr (.inr (.inr (.inr (.inr (.inr (.inl ⟨cmd, p, hpc, hp, rfl⟩)))))))
    · cases hst
  · rename_i cmd hpc
    cases hst
    exact .inl ⟨_, by rw [hpc]; exact .commanded _, rfl, rfl, rfl, rfl, rfl, rfl, rfl⟩
  · rename_i hpc
    cases hst
    exact .inl ⟨_, by rw [hpc]; exact .commanded _, rfl, rfl, rfl, rfl, rfl, rfl, rfl⟩
  · rename_i hpc
    cases hst
    exact .inl ⟨_, by rw [hpc]; exact .autoExit, rfl, rfl, rfl, rfl, rfl, rfl, rfl⟩
  · rename_i hpc
    cases hst
    refine .inl ⟨_, ?_, rfl, rfl, rfl, rfl, rfl, rfl, rfl⟩
    rw [hpc]
    split
    · exact .paused
    · exact .due
  · rename_i hpc
    cases hst
    exact .inr (.inr (.inr (.inr (.inr (.inr (.inr (.inr ⟨hpc, rfl⟩)))))))
  · cases hst

theorem step_cases {s s' : Chain} {a : ChainAct} (hst : s.step a = some s') :
    (∃ b m, s.allowed b = true ∧ s.manager.step b = some m ∧ s' = s.withManager m) ∨
    (∃ b p, s.cmdPath.step b = some p ∧ s' = { s with cmdPath := p }) ∨
    (∃ t now, s.goStep t now = some s') ∨
    (∃ t target r rest q, s.pc t = .notifying r rest ∧ (s.queue r).step (.notifyOne t target) = some q ∧
      s' = ({ s with queue := Function.update s.queue r q } : Chain).setPc t (.sending rest)) ∨
    (∃ t q, s.pc t = .waiting ∧ (s.queue t).step (.wake t) = some q ∧
      s' = { s with queue := Function.update s.queue t q }) ∨
    (∃ t timedOut q, s.pc t = .waiting ∧ (s.queue t).step (.recheck t timedOut) = some q ∧
      s' = { s with queue := Function.update s.queue t q }) := by
  cases a with
  | manager a =>
    simp only [step] at hst
    split at hst
    · rename_i hok
      obtain ⟨m, hm, rfl⟩ := Option.map_eq_some_iff.1 hst
      simp only [Bool.and_eq_true] at hok
      exact .inl ⟨a, m, hok.1, hm, rfl⟩
    · cases hst
  | command a =>
    simp only [step] at hst
    split at hst
    · obtain ⟨p, hp, rfl⟩ := Option.map_eq_some_iff.1 hst
      exact .inr (.inl ⟨a, p, hp, rfl⟩)
    · cases hst
  | go t now => exact .inr (.inr (.inl ⟨t, now, hst⟩))
  | notify t target =>
    simp only [step] at hst
    split at hst
    · rename_i r rest hpc
      obtain ⟨u, hu, rfl⟩ := Option.map_eq_some_iff.1 hst
      obtain ⟨q, hq, rfl⟩ := queueStep_eq hu
      exact .inr (.inr (.inr (.inl ⟨t, target, r, rest, q, hpc, hq, rfl⟩)))
    · cases hst
  | wake t =>
    simp only [step] at hst
    split at hst
    · rename_i hpc
      obtain ⟨q, hq, rfl⟩ := queueStep_eq hst
      exact .inr (.inr (.inr (.inr (.inl ⟨t, q, hpc, hq, rfl⟩))))
    · cases hst
  | recheck t timedOut =>
    simp only [step] at hst
    split at hst
    · rename_i hpc
      obtain ⟨q, hq, rfl⟩ := queueStep_eq hst
      exact .inr (.inr (.inr (.inr (.inr ⟨t, timedOut, q, hpc, hq, rfl⟩))))
    · cases hst

/-! ## The parts -/

/-- **What a step does to the parts**: to each of them at most one step of its own. -/
structure PartSteps (s s' : Chain) : Prop where
  manager : s'.manager = s.manager ∨ ∃ b, s.manager.step b = some s'.manager
  cmdPath : s'.cmdPath = s.cmdPath ∨ ∃ b, s.cmdPath.step b = some s'.cmdPath
  queue   : ∀ t, s'.queue t = s.queue t ∨ ∃ b, (s.queue t).step b = some (s'.queue t)

theorem PartSteps.of_same {s s' : Chain} (hm : s'.manager = s.manager) (hp : s'.cmdPath = s.cmdPath)
    (hq : s'.queue = s.queue) : PartSteps s s' :=
  ⟨.inl hm, .inl hp, fun t => .inl (by rw [hq])⟩

theorem PartSteps.of_queue {s s' : Chain} {r : ChainTask} {a : QueueAct ChainTask Payload}
    {q : MessageQueue ChainTask Payload} (hstep : (s.queue r).step a = some q) (hm : s'.manager = s.manager)
    (hp : s'.cmdPath = s.cmdPath) (hq : s'.queue = Function.update s.queue r q) : PartSteps s s' := by
  refine ⟨.inl hm, .inl hp, fun t => ?_⟩
  rw [hq]
  by_cases ht : t = r
  · right
    rw [ht, Function.update_self]
    exact ⟨a, hstep⟩
  · left
    rw [Function.update_of_ne ht]

theorem PartSteps.go {s s' : Chain} {t : ChainTask} {now : TimePoint} (hst : s.goStep t now = some s') :
    PartSteps s s' := by
  rcases goStep_cases hst with ⟨c, -, hgo⟩ | ⟨-, m, hm, rfl⟩ | ⟨-, -, p, hp, rfl⟩ | ⟨-, -, q, hq, rfl⟩ |
    ⟨msg, q, -, -, hq, rfl⟩ | ⟨p, -, rfl⟩ | ⟨r, p, rest, q, -, hq, rfl⟩ | ⟨cmd, p, -, hp, rfl⟩ | ⟨-, rfl⟩
  · exact .of_same hgo.manager hgo.cmdPath hgo.queue
  · exact ⟨.inr ⟨_, hm⟩, .inl rfl, fun _ => .inl rfl⟩
  · exact ⟨.inl rfl, .inr ⟨_, hp⟩, fun _ => .inl rfl⟩
  · exact .of_queue hq rfl rfl rfl
  · exact .of_queue hq rfl rfl rfl
  · unfold Chain.handleStep
    split
    · exact .of_same rfl rfl rfl
    · exact .of_same rfl rfl rfl
  · exact .of_queue hq rfl rfl rfl
  · exact ⟨.inl rfl, .inr ⟨_, hp⟩, fun _ => .inl rfl⟩
  · exact .of_same rfl rfl rfl

theorem partSteps_of_step {s s' : Chain} {a : ChainAct} (hst : s.step a = some s') : PartSteps s s' := by
  rcases step_cases hst with ⟨b, m, -, hm, rfl⟩ | ⟨b, p, hp, rfl⟩ | ⟨t, now, hgo⟩ |
    ⟨t, target, r, rest, q, -, hq, rfl⟩ | ⟨t, q, -, hq, rfl⟩ | ⟨t, timedOut, q, -, hq, rfl⟩
  · exact ⟨.inr ⟨_, hm⟩, .inl rfl, fun _ => .inl rfl⟩
  · exact ⟨.inl rfl, .inr ⟨_, hp⟩, fun _ => .inl rfl⟩
  · exact .go hgo
  · exact .of_queue hq rfl rfl rfl
  · exact .of_queue hq rfl rfl rfl
  · exact .of_queue hq rfl rfl rfl

/-- **Each queue of a reachable chain is a reachable `MessageQueue`.** -/
theorem reachable_queue {s : Chain} (hs : machine.Reachable s) (t : ChainTask) :
    (MessageQueue.machine ChainTask Payload).Reachable (s.queue t) :=
  Machine.Reachable.map (fun s : Chain => s.queue t) .init (fun _ _ _ _ hst => (partSteps_of_step hst).queue t) hs

theorem reachable_cmdPath {s : Chain} (hs : machine.Reachable s) :
    (CommandPath.machine CommandPath.cmdBuffer).Reachable s.cmdPath :=
  Machine.Reachable.map Chain.cmdPath .init (fun _ _ _ _ hst => (partSteps_of_step hst).cmdPath) hs

theorem reachable_manager {s : Chain} (hs : machine.Reachable s) : ThreadManager.machine.Reachable s.manager :=
  Machine.Reachable.map Chain.manager .init (fun _ _ _ _ hst => (partSteps_of_step hst).manager) hs

/-- While a thread of the chain sleeps on its queue, a notification is to come for every message in it. -/
theorem queue_covered {s : Chain} (hs : machine.Reachable s) (t : ChainTask) : (s.queue t).Covered :=
  MessageQueue.covered (reachable_queue hs t)

end Chain
end ThreadMessaging

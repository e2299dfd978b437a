import ThreadMessaging.TaskRun
import ThreadMessaging.TestChain
import ThreadMessaging.DataTypes
import ThreadMessaging.SpScRingBuffer
/-!
# The thread manager: its stop source, its registry and its operations

All operations are called by the main thread; between any two of their steps a task may finish.  Each `initTestChain`
makes five tasks of its own; `addTask` is given tasks its callers hold, the same one as often as they like.  A task is
known to the manager as a `TaskRun`; its `start` is given the token of `m_stopSource`, numbered by its replacements.
-/
namespace ThreadMessaging

inductive TaskId
  | chain (k : Nat) (t : ChainTask)
  | user (i : Nat)
  deriving DecidableEq, Repr

/-- The receivers whose queues a chain task holds Senders to. -/
def TaskId.targets : TaskId → List TaskId
  | .chain k t => t.targets.map (.chain k)
  | .user _    => []

/-- Where the main thread stands: in `addTask`, with the tasks to add; in the loop of `restartAllThreads`; in the loop
of `stopAllThreads`, to clear the registry after it or not; in `stopLastThread`. -/
inductive ManagerPc
  | idle
  | adding (rest : List TaskId)
  | restarting (rest : List TaskId)
  | joining (rest : List TaskId) (clear : Bool)
  | stoppingLast (t : TaskId)
  deriving DecidableEq, Repr

structure ThreadManager where
  /-- `m_stopSource`, by how often it has been replaced. -/
  stopSource       : Nat
  requested        : Nat → Bool
  tasks            : List TaskId
  run              : TaskId → TaskRun
  observerIncoming : Option Nat
  cmdBuffer        : Nat → SpScRingBuffer ObserverCommand
  chains           : Nat
  /-- The observer the last `sendObserverCommand` pushed to, and what it returned. -/
  sent             : Option (Option Nat × Bool)
  pc               : ManagerPc

/-- What can happen next: an operation, a step of the one in progress (`start ok` with the outcome of `isReadyToStart`
and of the thread creation), the end of a task's `run`, the observer's pop of a command. -/
inductive ManagerAct
  | initTestChain
  | addTask (task : Option Nat)
  | restartAllThreads
  | stopAllThreads
  | terminateAllThreads
  | stopLastThread
  | sendObserverCommand (cmd : ObserverCommand)
  | requestStop
  | start (ok : Bool)
  | join
  | done
  | finish (t : TaskId)
  | popCommand (k : Nat)
  deriving DecidableEq, Repr

namespace ThreadManager

def init : ThreadManager where
  stopSource       := 0
  requested        := fun _ => false
  tasks            := []
  run              := fun _ => {}
  observerIncoming := none
  cmdBuffer        := fun _ => (({} : SpScRingBuffer ObserverCommand).init 8).1
  chains           := 0
  sent             := none
  pc               := .idle

def running (s : ThreadManager) (t : TaskId) : Bool := (s.run t).running

def setRun (s : ThreadManager) (t : TaskId) (w : TaskRun) : ThreadManager :=
  { s with run := Function.update s.run t w }

def startTask (s : ThreadManager) (t : TaskId) (ok : Bool) : ThreadManager × Bool :=
  let (w, started) := (s.run t).start (some s.stopSource) ok
  (s.setRun t w, started)

/-- `addTask`: a task that started is registered. -/
def addStep (s : ThreadManager) (t : TaskId) (ok : Bool) : ThreadManager :=
  let (s', started) := s.startTask t ok
  if started then { s' with tasks := s'.tasks ++ [t] } else s'

def restartStep (s : ThreadManager) (t : TaskId) (ok : Bool) : ThreadManager :=
  if s.running t then s else (s.startTask t ok).1

def stopAll (s : ThreadManager) (clear : Bool) : ThreadManager :=
  { s with requested := Function.update s.requested s.stopSource true, pc := .joining s.tasks clear }

def sendObserverCommand (s : ThreadManager) (cmd : ObserverCommand) : ThreadManager :=
  match s.observerIncoming with
  | none   => { s with sent := some (none, false) }
  | some k =>
    let (rb, ok) := (s.cmdBuffer k).push cmd
    { s with cmdBuffer := Function.update s.cmdBuffer k rb, sent := some (some k, ok) }

def callStep (s : ThreadManager) : ManagerAct → Option ThreadManager
  | .initTestChain           => some { s with observerIncoming := some s.chains, chains := s.chains + 1,
                                              pc := .adding (ChainTask.all.map (.chain s.chains)) }
  | .addTask none            => some s
  | .addTask (some i)        => some { s with pc := .adding [.user i] }
  | .restartAllThreads       => some { s with stopSource := s.stopSource + 1, pc := .restarting s.tasks,
                                              requested := Function.update s.requested (s.stopSource + 1) false }
  | .stopAllThreads          => some (s.stopAll false)
  | .terminateAllThreads     => some (s.stopAll true)
  | .stopLastThread          => match s.tasks.getLast? with
                                | some t => some { s.setRun t (s.run t).stop with pc := .stoppingLast t }
                                | none   => some s
  | .sendObserverCommand cmd => some (s.sendObserverCommand cmd)
  | .requestStop             => some { s with requested := Function.update s.requested s.stopSource true }
  | _                        => none

def step (s : ThreadManager) (a : ManagerAct) : Option ThreadManager :=
  match a with
  | .start ok =>
    match s.pc with
    | .adding (t :: rest)     => some { s.addStep t ok with pc := .adding rest }
    | .restarting (t :: rest) => some { s.restartStep t ok with pc := .restarting rest }
    | _                       => none
  | .join =>
    match s.pc with
    | .joining (t :: rest) clear => if s.running t then none else some { s with pc := .joining rest clear }
    | .stoppingLast t            => if s.running t then none else some { s with tasks := s.tasks.dropLast, pc := .idle }
    | _                          => none
  | .done =>
    match s.pc with
    | .adding []        => some { s with pc := .idle }
    | .restarting []    => some { s with pc := .idle }
    | .joining [] clear => some { s with tasks := if clear then [] else s.tasks, pc := .idle }
    | _                 => none
  | .finish t => if s.running t then some (s.setRun t (s.run t).finish) else none
  | .popCommand k =>
    if s.running (.chain k .observerIncoming) then
      some { s with cmdBuffer := Function.update s.cmdBuffer k ((s.cmdBuffer k).pop default).1 }
    else none
  | op =>
    match s.pc with
    | .idle => s.callStep op
    | _     => none

/-- The manager, under any operations and with tasks that finish at any point. -/
def machine : Machine ThreadManager ManagerAct where
  init := init
  step := step

/-- **What a step can be**: a call, a start in one of the two loops, the end of a join, of a loop, of a task's `run`, or
the observer's pop. -/
theorem step_cases {s s' : ThreadManager} {a : ManagerAct} (hst : s.step a = some s') :
    (s.pc = .idle ∧ s.callStep a = some s') ∨
    (∃ t rest ok, a = .start ok ∧ s.pc = .adding (t :: rest) ∧ s' = { s.addStep t ok with pc := .adding rest }) ∨
    (∃ t rest ok, a = .start ok ∧ s.pc = .restarting (t :: rest) ∧
      s' = { s.restartStep t ok with pc := .restarting rest }) ∨
    (∃ t rest clear, a = .join ∧ s.pc = .joining (t :: rest) clear ∧ s.running t = false ∧
      s' = { s with pc := .joining rest clear }) ∨
    (∃ t, a = .join ∧ s.pc = .stoppingLast t ∧ s.running t = false ∧
      s' = { s with tasks := s.tasks.dropLast, pc := .idle }) ∨
    (a = .done ∧ (s.pc = .adding [] ∨ s.pc = .restarting [] ∨ s.pc = .joining [] false) ∧ s' = { s with pc := .idle }) ∨
    (a = .done ∧ s.pc = .joining [] true ∧ s' = { s with tasks := [], pc := .idle }) ∨
    (∃ t, a = .finish t ∧ s.running t = true ∧ s' = s.setRun t (s.run t).finish) ∨
    (∃ k, a = .popCommand k ∧ s.running (.chain k .observerIncoming) = true ∧
      s' = { s with cmdBuffer := Function.update s.cmdBuffer k ((s.cmdBuffer k).pop default).1 }) := by
  unfold step at hst
  split at hst
  · split at hst
    · rename_i t rest hpc
      cases hst; exact .inr (.inl ⟨t, rest, _, rfl, hpc, rfl⟩)
    · rename_i t rest hpc
      cases hst; exact .inr (.inr (.inl ⟨t, rest, _, rfl, hpc, rfl⟩))
    · cases hst
  · split at hst
    · rename_i t rest clear hpc
      split at hst
      · cases hst
      · rename_i hrun
        cases hst; exact .inr (.inr (.inr (.inl ⟨t, rest, clear, rfl, hpc, by simpa using hrun, rfl⟩)))
    · rename_i t hpc
      split at hst
      · cases hst
      · rename_i hrun
        cases hst; exact .inr (.inr (.inr (.inr (.inl ⟨t, rfl, hpc, by simpa using hrun, rfl⟩))))
    · cases hst
  · split at hst
    · rename_i hpc
      cases hst; exact .inr (.inr (.inr (.inr (.inr (.inl ⟨rfl, .inl hpc, rfl⟩)))))
    · rename_i hpc
      cases hst; exact .inr (.inr (.inr (.inr (.inr (.inl ⟨rfl, .inr (.inl hpc), rfl⟩)))))
    · rename_i clear hpc
      cases clear with
      | false => cases hst; exact .inr (.inr (.inr (.inr (.inr (.inl ⟨rfl, .inr (.inr hpc), rfl⟩)))))
      | true => cases hst; exact .inr (.inr (.inr (.inr (.inr (.inr (.inl ⟨rfl, hpc, rfl⟩))))))
    · cases hst
  · split at hst
    · rename_i t hrun
      cases hst; exact .inr (.inr (.inr (.inr (.inr (.inr (.inr (.inl ⟨t, rfl, hrun, rfl⟩)))))))
    · cases hst
  · split at hst
    · rename_i hrun
      cases hst; exact .inr (.inr (.inr (.inr (.inr (.inr (.inr (.inr ⟨_, rfl, hrun, rfl⟩)))))))
    · cases hst
  · split at hst
    · rename_i hpc; exact .inl ⟨hpc, hst⟩
    · cases hst

/-- The operations of the manager, apart from the steps inside them and what happens beside them. -/
def isCall : ManagerAct → Bool
  | .start _      => false
  | .join         => false
  | .done         => false
  | .finish _     => false
  | .popCommand _ => false
  | _             => true

theorem callStep_of_isCall {s s' : ThreadManager} {a : ManagerAct} (ha : isCall a = true) (hst : s.step a = some s') :
    s.pc = .idle ∧ s.callStep a = some s' := by
  cases a <;> first
    | (cases ha; done)
    | (simp only [step] at hst
       split at hst
       · rename_i hpc; exact ⟨hpc, hst⟩
       · cases hst)

theorem isCall_of_callStep {s s' : ThreadManager} {a : ManagerAct} (hst : s.callStep a = some s') :
    isCall a = true := by
  cases a <;> first | rfl | cases hst

/-! ## What a start does -/

@[simp] theorem run_setRun (s : ThreadManager) (t : TaskId) (w : TaskRun) : (s.setRun t w).run t = w :=
  Function.update_self ..

theorem run_setRun_of_ne {s : ThreadManager} {t u : TaskId} (w : TaskRun) (h : u ≠ t) :
    (s.setRun t w).run u = s.run u := Function.update_of_ne h ..

theorem startTask_cases (s : ThreadManager) (t : TaskId) (ok : Bool) :
    ((s.startTask t ok).2 = true ∧ s.running t = false ∧ ok = true ∧
      (s.startTask t ok).1 = s.setRun t { running := true, token := some s.stopSource }) ∨
    ((s.startTask t ok).2 = false ∧ (ok && !s.running t) = false ∧ (s.startTask t ok).1 = s) := by
  unfold startTask TaskRun.start
  dsimp only
  split
  · rename_i h
    right
    refine ⟨rfl, ?_, ?_⟩
    · rcases Bool.or_eq_true_iff.1 h with h | h
      · show (ok && !(s.run t).running) = false
        rw [h]; simp
      · simp only [Bool.not_eq_true'] at h
        rw [h]; rfl
    show { s with run := Function.update s.run t (s.run t) } = s
    rw [Function.update_eq_self]
  · rename_i h
    left
    simp only [Bool.or_eq_true, Bool.not_eq_true', not_or, Bool.not_eq_true, Bool.not_eq_false] at h
    exact ⟨rfl, h.1, h.2, rfl⟩

theorem sendObserverCommand_eq (s : ThreadManager) (cmd : ObserverCommand) :
    ∃ buffer sent, s.sendObserverCommand cmd = { s with cmdBuffer := buffer, sent := sent } := by
  unfold sendObserverCommand
  split
  · exact ⟨_, _, rfl⟩
  · exact ⟨_, _, rfl⟩

/-- **A call registers and starts nothing**; at most `stopLastThread` stops a task. -/
theorem callStep_frame {s s' : ThreadManager} {a : ManagerAct} (hst : s.callStep a = some s') :
    s'.tasks = s.tasks ∧ ∀ t, s'.run t = s.run t ∨ s'.run t = (s.run t).stop := by
  unfold callStep at hst
  split at hst
  · cases hst; exact ⟨rfl, fun _ => .inl rfl⟩
  · cases hst; exact ⟨rfl, fun _ => .inl rfl⟩
  · cases hst; exact ⟨rfl, fun _ => .inl rfl⟩
  · cases hst; exact ⟨rfl, fun _ => .inl rfl⟩
  · cases hst; exact ⟨rfl, fun _ => .inl rfl⟩
  · cases hst; exact ⟨rfl, fun _ => .inl rfl⟩
  · split at hst
    · rename_i last hlast
      cases hst
      refine ⟨rfl, fun t => ?_⟩
      show (s.setRun last _).run t = _ ∨ (s.setRun last _).run t = _
      by_cases ht : t = last
      · rw [ht, run_setRun]; exact .inr rfl
      · rw [run_setRun_of_ne _ ht]; exact .inl rfl
    · cases hst; exact ⟨rfl, fun _ => .inl rfl⟩
  · cases hst
    obtain ⟨buffer, sent, heq⟩ := s.sendObserverCommand_eq _
    rw [heq]; exact ⟨rfl, fun _ => .inl rfl⟩
  · cases hst; exact ⟨rfl, fun _ => .inl rfl⟩
  · cases hst

theorem callStep_run {s s' : ThreadManager} {a : ManagerAct} (hst : s.callStep a = some s') (t : TaskId) :
    s'.running t = s.running t ∧ (s'.run t).token = (s.run t).token := by
  unfold running
  rcases (callStep_frame hst).2 t with heq | heq
  · rw [heq]; exact ⟨rfl, rfl⟩
  · rw [heq]; exact ⟨rfl, rfl⟩

theorem running_step {m m' : ThreadManager} {a : ManagerAct} (ha : ∀ t, a ≠ .finish t) (hst : m.step a = some m')
    (t : TaskId) (hr : m.running t = true) : m'.running t = true := by
  have hstart : ∀ t' ok, (m.startTask t' ok).1.running t = true := by
    intro t' ok
    rcases m.startTask_cases t' ok with ⟨-, -, -, heq⟩ | ⟨-, -, heq⟩
    · rw [heq]
      show ((m.setRun t' _).run t).running = true
      by_cases htt : t = t'
      · rw [htt, run_setRun]
      · rw [run_setRun_of_ne _ htt]; exact hr
    · rw [heq]; exact hr
  rcases step_cases hst with ⟨-, hcall⟩ | ⟨t', rest, ok, -, -, rfl⟩ | ⟨t', rest, ok, -, -, rfl⟩ |
    ⟨t', rest, clear, -, -, -, rfl⟩ | ⟨t', -, -, -, rfl⟩ | ⟨-, -, rfl⟩ | ⟨-, -, rfl⟩ | ⟨t', rfl, -, -⟩ | ⟨k, -, -, rfl⟩
  · rw [(callStep_run hcall t).1]; exact hr
  · show (m.addStep t' ok).running t = true
    unfold addStep
    dsimp only
    split
    · exact hstart t' ok
    · exact hstart t' ok
  · show (m.restartStep t' ok).running t = true
    unfold restartStep
    split
    · exact hr
    · exact hstart t' ok
  · exact hr
  · exact hr
  · exact hr
  · exact hr
  · exact absurd rfl (ha t')
  · exact hr

/-! ## Each task's run -/

theorem run_setRun_step {m : ThreadManager} {t : TaskId} {b : TaskRunAct} {w : TaskRun} (hw : (m.run t).step b = some w)
    (u : TaskId) : (m.setRun t w).run u = m.run u ∨ ∃ b, (m.run u).step b = some ((m.setRun t w).run u) := by
  by_cases hu : u = t
  · right
    rw [hu, run_setRun]
    exact ⟨b, hw⟩
  · left
    rw [run_setRun_of_ne w hu]

theorem run_startTask (m : ThreadManager) (t : TaskId) (ok : Bool) (u : TaskId) :
    (m.startTask t ok).1.run u = m.run u ∨ ∃ b, (m.run u).step b = some ((m.startTask t ok).1.run u) := by
  rcases m.startTask_cases t ok with ⟨-, hrun, -, heq⟩ | ⟨-, -, heq⟩
  · rw [heq]
    refine run_setRun_step (b := .start (some m.stopSource)) ?_ u
    have hrun : (m.run t).running = false := hrun
    simp [TaskRun.step, TaskRun.start, hrun]
  · rw [heq]
    exact .inl rfl

theorem run_step {m m' : ThreadManager} {a : ManagerAct} (hst : m.step a = some m') (u : TaskId) :
    m'.run u = m.run u ∨ ∃ b, (m.run u).step b = some (m'.run u) := by
  rcases step_cases hst with ⟨-, hcall⟩ | ⟨t, rest, ok, -, -, rfl⟩ | ⟨t, rest, ok, -, -, rfl⟩ |
    ⟨t, rest, clear, -, -, -, rfl⟩ | ⟨t, -, -, -, rfl⟩ | ⟨-, -, rfl⟩ | ⟨-, -, rfl⟩ | ⟨t, -, hrun, rfl⟩ | ⟨k, -, -, rfl⟩
  · rcases (callStep_frame hcall).2 u with heq | heq
    · exact .inl heq
    · exact .inr ⟨.stop, by rw [heq]; rfl⟩
  · show (m.addStep t ok).run u = _ ∨ ∃ b, _ = some ((m.addStep t ok).run u)
    unfold addStep
    dsimp only
    split
    · exact m.run_startTask t ok u
    · exact m.run_startTask t ok u
  · show (m.restartStep t ok).run u = _ ∨ ∃ b, _ = some ((m.restartStep t ok).run u)
    unfold restartStep
    split
    · exact .inl rfl
    · exact m.run_startTask t ok u
  · exact .inl rfl
  · exact .inl rfl
  · exact .inl rfl
  · exact .inl rfl
  · refine run_setRun_step (b := .finish) ?_ u
    have hrun : (m.run t).running = true := hrun
    rw [TaskRun.step, if_pos hrun]
  · exact .inl rfl

/-- **Each task of a reachable manager is a reachable `TaskRun`**, what `reachable_taskRun` shows of a worker. -/
theorem reachable_run {s : ThreadManager} (hs : machine.Reachable s) (t : TaskId) :
    TaskRun.machine.Reachable (s.run t) :=
  Machine.Reachable.map (fun s : ThreadManager => s.run t) .init (fun _ _ _ _ hst => run_step hst t) hs

end ThreadManager
end ThreadMessaging

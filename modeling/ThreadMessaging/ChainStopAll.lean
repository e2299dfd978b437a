import Mathlib.Algebra.BigOperators.Ring.Finset
import ThreadMessaging.ChainStops
import ThreadMessaging.ManagerStopped
/-!
# `stopAllThreads` returns

While the main thread is in `stopAllThreads`, nothing is started and nothing is sent to the observer: what goes on are
the chain's own threads and the joins.  If each thread that runs has been told to stop, they are done after at most as
many steps as the threads have to their ends, whichever of them goes first, and none of them keeps the others waiting; a
thread that has not been told, since a restart has replaced its stop source, is waited for without end
(`stopAllThreads_returns`).
-/
namespace ThreadMessaging

namespace ThreadManager

variable {m m' : ThreadManager}

/-- What a manager that joins can do. -/
theorem joining_step {a : ManagerAct} {rest : List TaskId} {clear : Bool} (hpc : m.pc = .joining rest clear)
    (hf : ∀ t, a ≠ .finish t) (hp : ∀ k, a ≠ .popCommand k) (hst : m.step a = some m') :
    m'.run = m.run ∧ m'.requested = m.requested ∧
    ((∃ t rest', rest = t :: rest' ∧ m'.pc = .joining rest' clear) ∨ (rest = [] ∧ m'.pc = .idle)) := by
  rcases step_cases hst with ⟨hidle, -⟩ | ⟨t, rest', ok, -, hadd, -⟩ | ⟨t, rest', ok, -, hre, -⟩ |
    ⟨t, rest', clear', -, hjoin, -, rfl⟩ | ⟨t, -, hlast, -, -⟩ | ⟨-, hdone, rfl⟩ | ⟨-, hdone, rfl⟩ | ⟨t, rfl, -, -⟩ |
    ⟨k, rfl, -, -⟩
  · rw [hpc] at hidle; cases hidle
  · rw [hpc] at hadd; cases hadd
  · rw [hpc] at hre; cases hre
  · rw [hpc] at hjoin
    cases hjoin
    exact ⟨rfl, rfl, .inl ⟨t, rest', rfl, rfl⟩⟩
  · rw [hpc] at hlast; cases hlast
  · rw [hpc] at hdone
    rcases hdone with he | he | he <;> cases he
    exact ⟨rfl, rfl, .inr ⟨rfl, rfl⟩⟩
  · rw [hpc] at hdone
    cases hdone
    exact ⟨rfl, rfl, .inr ⟨rfl, rfl⟩⟩
  · exact absurd rfl (hf t)
  · exact absurd rfl (hp k)

/-- Of what is registered or about to be, only `initTestChain` and `addTask` bring something new. -/
theorem mem_registry_step {a : ManagerAct} (hinit : a ≠ .initTestChain) (hadd : ∀ task, a ≠ .addTask task)
    (hst : m.step a = some m') {u : TaskId} (hu : u ∈ m'.tasks ++ m'.pending) : u ∈ m.tasks ++ m.pending := by
  have hkeep : ∀ {n : ThreadManager}, u ∈ n.tasks ++ n.pending → n.tasks = m.tasks → n.pending = [] →
      u ∈ m.tasks ++ m.pending := by
    intro n hu htasks hpend
    rw [htasks, hpend, List.append_nil] at hu
    exact List.mem_append_left _ hu
  rcases step_cases hst with ⟨hidle, hcall⟩ | ⟨t, rest, ok, -, hpc, rfl⟩ | ⟨t, rest, ok, -, hpc, rfl⟩ |
    ⟨t, rest, clear, -, hpc, -, rfl⟩ | ⟨t, -, hpc, -, rfl⟩ | ⟨-, hpc, rfl⟩ | ⟨-, hpc, rfl⟩ | ⟨t, -, -, rfl⟩ |
    ⟨k, -, -, rfl⟩
  · have htasks := (callStep_frame hcall).1
    have hnone : m.pending = [] := pending_of (by rw [hidle]; exact fun _ he => by cases he)
    unfold callStep at hcall
    split at hcall
    · exact absurd rfl hinit
    · exact absurd rfl (hadd none)
    · exact absurd rfl (hadd _)
    · cases hcall; exact hkeep hu rfl rfl
    · cases hcall; exact hkeep hu rfl rfl
    · cases hcall; exact hkeep hu rfl rfl
    · split at hcall
      · cases hcall; exact hkeep hu rfl rfl
      · cases hcall; exact hu
    · cases hcall
      obtain ⟨buffer, sent, heq⟩ := m.sendObserverCommand_eq _
      rw [heq] at hu
      exact hu
    · cases hcall; exact hkeep hu rfl hnone
    · cases hcall
  · have htasks := (m.addStep_registry t ok).1
    rw [pending_adding hpc]
    have hu : u ∈ (m.addStep t ok).tasks ++ rest := hu
    rw [htasks] at hu
    split at hu
    · rwa [List.append_assoc] at hu
    · rcases List.mem_append.1 hu with hu | hu
      · exact List.mem_append_left _ hu
      · exact List.mem_append_right _ (List.mem_cons_of_mem _ hu)
  · exact hkeep hu (m.restartStep_registry t ok).1 rfl
  · exact hkeep hu rfl rfl
  · have hu : u ∈ m.tasks.dropLast ++ [] := hu
    rw [List.append_nil] at hu
    exact List.mem_append_left _ (List.mem_of_mem_dropLast hu)
  · exact hkeep hu rfl rfl
  · exact absurd hu List.not_mem_nil
  · exact hu
  · exact hu

end ThreadManager

namespace CommandPath

variable {T : Type} {s t : CommandPath T}

/-- Between two `sendCommand`s, the command path takes only steps of its consumer. -/
theorem sender_idle_step {a : CommandAct T} (hs : s.sender = .idle) (ha : ∀ cmd, a ≠ .sendCommand cmd)
    (hst : s.step a = some t) : t.sender = .idle ∧ bySender a = false := by
  have hnot : bySender a = false := by
    cases a with
    | sendCommand cmd => exact absurd rfl (ha cmd)
    | sender b => simp [step, hs] at hst
    | pushed => simp [step, hs] at hst
    | notifyOne => simp [step, hs] at hst
    | sent => simp [step, hs] at hst
    | _ => rfl
  exact ⟨(consumer_side hnot hst).trans hs, hnot⟩

end CommandPath

namespace Chain

variable {s s' : Chain}

/-! ## What the main thread's operations leave -/

/-- The main thread sends no command inside an operation of the manager; the tasks are the chain's own, and those that
run are in their loops. -/
structure MainInv (s : Chain) : Prop where
  sender : s.manager.pc ≠ .idle → s.cmdPath.sender = .idle
  runs   : ∀ t, s.manager.running (taskId t) = true → s.pc t ≠ .exited
  ours   : ∀ u ∈ s.manager.tasks ++ s.manager.pending, ∃ t, u = taskId t

/-- A step of thread `t` to `c`, with at most a step of the command path's consumer. -/
theorem MainInv.goto (h : MainInv s) {t : ChainTask} {c : ChainPc} (hpc : s'.pc = Function.update s.pc t c)
    (hc : c ≠ .exited) (hm : s'.manager = s.manager)
    (hp : s'.cmdPath = s.cmdPath ∨ ∃ b, (b = .waitPopFor ∨ b = .unlock) ∧ s.cmdPath.step b = some s'.cmdPath) :
    MainInv s' := by
  refine ⟨fun hne => ?_, fun v hr => ?_, by rw [hm]; exact h.ours⟩
  · rw [hm] at hne
    rcases hp with heq | ⟨b, hb, hstep⟩
    · rw [heq]; exact h.sender hne
    · refine (CommandPath.sender_idle_step (h.sender hne) (fun cmd he => ?_) hstep).1
      rcases hb with rfl | rfl <;> cases he
  · rw [hm] at hr
    rw [hpc]
    by_cases hv : v = t
    · rw [hv, Function.update_self]; exact hc
    · rw [Function.update_of_ne hv]; exact h.runs v hr

theorem MainInv.finish (h : MainInv s) {t : ChainTask} {m : ThreadManager}
    (hm : s.manager.step (.finish (taskId t)) = some m) : MainInv { s.setPc t .exited with manager := m } := by
  simp only [ThreadManager.step] at hm
  split at hm
  · cases hm
    refine ⟨h.sender, fun v hr => ?_, h.ours⟩
    have hr : ((s.manager.setRun (taskId t) _).run (taskId v)).running = true := hr
    show Function.update s.pc t .exited v ≠ .exited
    by_cases hv : v = t
    · subst hv
      rw [ThreadManager.run_setRun] at hr
      cases hr
    · rw [ThreadManager.run_setRun_of_ne _ (fun he => hv (by cases he; rfl))] at hr
      rw [Function.update_of_ne hv]
      exact h.runs v hr
  · cases hm

theorem Turns.not_to_exited {c c' : ChainPc} (h : Turns c c') : c' ≠ .exited := by
  cases h <;> exact fun he => by cases he

theorem mainInv_go {t : ChainTask} {now : TimePoint} (h : MainInv s) (hst : s.goStep t now = some s') :
    MainInv s' := by
  rcases goStep_cases hst with ⟨c, hturn, hgo⟩ | ⟨-, m, hm, rfl⟩ | ⟨-, rfl, p, hp, rfl⟩ | ⟨-, -, q, -, rfl⟩ |
    ⟨msg, q, -, -, -, rfl⟩ | ⟨p, -, rfl⟩ | ⟨r, p, rest, q, -, -, rfl⟩ | ⟨cmd, p, -, hp, rfl⟩ | ⟨-, rfl⟩
  · exact h.goto hgo.pc hturn.not_to_exited hgo.manager (.inl hgo.cmdPath)
  · exact h.finish hm
  · exact h.goto (c := .waitCommand) rfl (fun he => by cases he) rfl (.inr ⟨_, .inl rfl, hp⟩)
  · exact h.goto (c := .waiting) rfl (fun he => by cases he) rfl (.inl rfl)
  · exact h.goto (c := .got msg) rfl (fun he => by cases he) rfl (.inl rfl)
  · unfold handleStep
    split
    · exact h.goto (c := .sending _) rfl (fun he => by cases he) rfl (.inl rfl)
    · exact h.goto (c := .head) rfl (fun he => by cases he) rfl (.inl rfl)
  · exact h.goto (c := .notifying r rest) rfl (fun he => by cases he) rfl (.inl rfl)
  · exact h.goto (c := .commanded cmd) rfl (fun he => by cases he) rfl (.inr ⟨_, .inr rfl, hp⟩)
  · exact h.goto (c := .sending _) rfl (fun he => by cases he) rfl (.inl rfl)

/-- An operation of the manager, or a step of the one in progress. -/
theorem MainInv.withManager (h : MainInv s) {b : ManagerAct} {m : ThreadManager} (hok : s.allowed b = true)
    (hsender : s.cmdPath.sender = .idle) (hst : s.manager.step b = some m) : MainInv (s.withManager m) := by
  refine ⟨fun _ => hsender, fun t hr => ?_, fun u hu => ?_⟩
  · have hr : m.running (taskId t) = true := hr
    show (if (!s.manager.running (taskId t) && m.running (taskId t)) = true then ChainPc.head else s.pc t) ≠ .exited
    rw [hr, Bool.and_true]
    split
    · exact fun he => by cases he
    · rename_i hold
      exact h.runs t (by simpa using hold)
  · have hu : u ∈ m.tasks ++ m.pending := hu
    by_cases hinit : b = .initTestChain
    · subst hinit
      have hzero : s.manager.chains = 0 := of_decide_eq_true hok
      obtain ⟨-, hcall⟩ := ThreadManager.callStep_of_isCall rfl hst
      cases hcall
      rcases List.mem_append.1 hu with hu | hu
      · exact h.ours u (List.mem_append_left _ hu)
      · obtain ⟨t, -, rfl⟩ := List.mem_map.1 hu
        exact ⟨t, by rw [hzero]; rfl⟩
    · refine h.ours u (ThreadManager.mem_registry_step hinit (fun task he => ?_) hst hu)
      rw [he] at hok
      cases hok

theorem mainInv_step {a : ChainAct} (h : MainInv s) (hst : s.step a = some s') : MainInv s' := by
  cases a with
  | manager b =>
    simp only [step] at hst
    split at hst
    · rename_i hok
      obtain ⟨m, hm, rfl⟩ := Option.map_eq_some_iff.1 hst
      simp only [Bool.and_eq_true, decide_eq_true_eq] at hok
      exact h.withManager hok.1 hok.2 hm
    · cases hst
  | command b =>
    simp only [step] at hst
    split at hst
    · rename_i hok
      obtain ⟨p, hp, rfl⟩ := Option.map_eq_some_iff.1 hst
      refine ⟨fun hne => ?_, h.runs, h.ours⟩
      refine (CommandPath.sender_idle_step (h.sender hne) (fun cmd he => ?_) hp).1
      subst he
      simp only [commandAllowed, Bool.and_eq_true, decide_eq_true_eq] at hok
      exact hne hok.1
    · cases hst
  | go t now => exact mainInv_go h hst
  | notify t target =>
    simp only [step] at hst
    split at hst
    · rename_i r rest hpc
      obtain ⟨u, hu, rfl⟩ := Option.map_eq_some_iff.1 hst
      obtain ⟨q, -, rfl⟩ := queueStep_eq hu
      exact h.goto (c := .sending rest) rfl (fun he => by cases he) rfl (.inl rfl)
    · cases hst
  | wake t =>
    simp only [step] at hst
    split at hst
    · obtain ⟨q, -, rfl⟩ := queueStep_eq hst
      exact ⟨h.sender, h.runs, h.ours⟩
    · cases hst
  | recheck t timedOut =>
    simp only [step] at hst
    split at hst
    · obtain ⟨q, -, rfl⟩ := queueStep_eq hst
      exact ⟨h.sender, h.runs, h.ours⟩
    · cases hst

theorem reachable_mainInv (hs : machine.Reachable s) : MainInv s :=
  hs.invariant (I := MainInv)
    ⟨fun _ => rfl, (fun _ hr => by cases hr), fun _ hu => absurd hu List.not_mem_nil⟩
    (fun _ _ _ h hst => mainInv_step h hst)

/-! ## The threads while the main thread joins them -/

theorem goStep_pc {t : ChainTask} {now : TimePoint} (hst : s.goStep t now = some s') :
    s.pc t ≠ .exited ∧ ∃ c, s'.pc = Function.update s.pc t c := by
  refine ⟨fun he => by simp [goStep, he] at hst, ?_⟩
  rcases goStep_cases hst with ⟨c, -, hgo⟩ | ⟨-, m, -, rfl⟩ | ⟨-, -, p, -, rfl⟩ | ⟨-, -, q, -, rfl⟩ |
    ⟨msg, q, -, -, -, rfl⟩ | ⟨p, -, rfl⟩ | ⟨r, p, rest, q, -, -, rfl⟩ | ⟨cmd, p, -, -, rfl⟩ | ⟨-, rfl⟩
  · exact ⟨c, hgo.pc⟩
  · exact ⟨_, rfl⟩
  · exact ⟨_, rfl⟩
  · exact ⟨_, rfl⟩
  · exact ⟨_, rfl⟩
  · unfold handleStep
    split <;> exact ⟨_, rfl⟩
  · exact ⟨_, rfl⟩
  · exact ⟨_, rfl⟩
  · exact ⟨_, rfl⟩

/-- **A thread that has ended takes no step**, and only an operation of the manager starts it again. -/
theorem exited_stays {a : ChainAct} {t : ChainTask} (hw : Waits s) (ha : ∀ b, a ≠ .manager b)
    (hexit : s.pc t = .exited) (hst : s.step a = some s') : s'.pc t = .exited ∧ own t a = false := by
  have hother : ∀ {u : ChainTask}, s.pc u ≠ .exited → u ≠ t := fun hu he => hu (by rw [he]; exact hexit)
  cases a with
  | manager b => exact absurd rfl (ha b)
  | command b =>
    simp only [step] at hst
    split at hst
    · obtain ⟨p, hp, rfl⟩ := Option.map_eq_some_iff.1 hst
      refine ⟨hexit, ?_⟩
      by_contra hown
      have hwait := own_command_waits hw (by simpa using hown) hp
      rw [hexit] at hwait; cases hwait
    · cases hst
  | go u now =>
    obtain ⟨hlive, c, hpc⟩ := goStep_pc hst
    refine ⟨?_, decide_eq_false (hother hlive)⟩
    rw [hpc, Function.update_of_ne (Ne.symm (hother hlive))]
    exact hexit
  | notify u target =>
    simp only [step] at hst
    split at hst
    · rename_i r rest hpc
      obtain ⟨v, hv, rfl⟩ := Option.map_eq_some_iff.1 hst
      obtain ⟨q, -, rfl⟩ := queueStep_eq hv
      have hut : u ≠ t := hother (by rw [hpc]; exact fun he => by cases he)
      refine ⟨?_, decide_eq_false hut⟩
      show Function.update s.pc u (.sending rest) t = .exited
      rw [Function.update_of_ne (Ne.symm hut)]
      exact hexit
    · cases hst
  | wake u =>
    simp only [step] at hst
    split at hst
    · rename_i hpc
      obtain ⟨q, -, rfl⟩ := queueStep_eq hst
      exact ⟨hexit, decide_eq_false (hother (by rw [hpc]; exact fun he => by cases he))⟩
    · cases hst
  | recheck u timedOut =>
    simp only [step] at hst
    split at hst
    · rename_i hpc
      obtain ⟨q, -, rfl⟩ := queueStep_eq hst
      exact ⟨hexit, decide_eq_false (hother (by rw [hpc]; exact fun he => by cases he))⟩
    · cases hst

theorem goStep_manager {t : ChainTask} {now : TimePoint} (hst : s.goStep t now = some s') :
    s'.manager = s.manager ∨
    (s.stopRequested t = true ∧ s.manager.step (.finish (taskId t)) = some s'.manager) := by
  by_cases hhead : s.pc t = .head
  · by_cases hstop : s.stopRequested t = true
    · simp only [goStep, hhead, if_pos hstop] at hst
      obtain ⟨m, hm, rfl⟩ := Option.map_eq_some_iff.1 hst
      exact .inr ⟨hstop, hm⟩
    · simp only [goStep, hhead, if_neg hstop] at hst
      unfold waitStep at hst
      split at hst
      · obtain ⟨p, -, rfl⟩ := Option.map_eq_some_iff.1 hst
        exact .inl rfl
      · obtain ⟨u, hu, rfl⟩ := Option.map_eq_some_iff.1 hst
        obtain ⟨q, -, rfl⟩ := queueStep_eq hu
        exact .inl rfl
  · left
    rcases goStep_cases hst with ⟨c, -, hgo⟩ | ⟨hpc, -⟩ | ⟨hpc, -⟩ | ⟨hpc, -⟩ | ⟨msg, q, -, -, -, rfl⟩ | ⟨p, -, rfl⟩ |
      ⟨r, p, rest, q, -, -, rfl⟩ | ⟨cmd, p, -, -, rfl⟩ | ⟨-, rfl⟩
    · exact hgo.manager
    · exact absurd hpc hhead
    · exact absurd hpc hhead
    · exact absurd hpc hhead
    · rfl
    · unfold handleStep
      split <;> rfl
    · rfl
    · rfl
    · rfl

/-- Outside the manager's operations, the one step of the manager's is the end of a thread that is told to stop. -/
theorem manager_step {a : ChainAct} (ha : ∀ b, a ≠ .manager b) (hst : s.step a = some s') :
    s'.manager = s.manager ∨
    ∃ t, s.stopRequested t = true ∧ s.manager.step (.finish (taskId t)) = some s'.manager := by
  cases a with
  | manager b => exact absurd rfl (ha b)
  | command b =>
    simp only [step] at hst
    split at hst
    · obtain ⟨p, -, rfl⟩ := Option.map_eq_some_iff.1 hst
      exact .inl rfl
    · cases hst
  | go t now => exact (goStep_manager hst).imp_right (fun hfin => ⟨t, hfin⟩)
  | notify t target =>
    simp only [step] at hst
    split at hst
    · obtain ⟨u, hu, rfl⟩ := Option.map_eq_some_iff.1 hst
      obtain ⟨q, -, rfl⟩ := queueStep_eq hu
      exact .inl rfl
    · cases hst
  | wake t =>
    simp only [step] at hst
    split at hst
    · obtain ⟨q, -, rfl⟩ := queueStep_eq hst
      exact .inl rfl
    · cases hst
  | recheck t timedOut =>
    simp only [step] at hst
    split at hst
    · obtain ⟨q, -, rfl⟩ := queueStep_eq hst
      exact .inl rfl
    · cases hst

theorem finish_frame {m m' : ThreadManager} {u : TaskId} (hst : m.step (.finish u) = some m') :
    m'.pc = m.pc ∧ m'.requested = m.requested ∧ ∀ v, v ≠ u → m'.run v = m.run v := by
  simp only [ThreadManager.step] at hst
  split at hst
  · cases hst
    exact ⟨rfl, rfl, fun v hv => ThreadManager.run_setRun_of_ne _ hv⟩
  · cases hst

/-- Inside an operation of the manager, any other step is some thread's own. -/
theorem exists_owner {a : ChainAct} (h : MainInv s) (hbusy : s.manager.pc ≠ .idle) (ha : ∀ b, a ≠ .manager b)
    (hst : s.step a = some s') : ∃ t, own t a = true := by
  cases a with
  | manager b => exact absurd rfl (ha b)
  | command b =>
    refine ⟨.observerIncoming, ?_⟩
    simp only [step] at hst
    split at hst
    · rename_i hok
      obtain ⟨p, hp, rfl⟩ := Option.map_eq_some_iff.1 hst
      have hnot : ∀ cmd, b ≠ .sendCommand cmd := by
        rintro cmd rfl
        simp only [commandAllowed, Bool.and_eq_true, decide_eq_true_eq] at hok
        exact hbusy hok.1
      have hconsumer := (CommandPath.sender_idle_step (h.sender hbusy) hnot hp).2
      cases b <;> first | rfl | (cases hok; done) | cases hconsumer
    · cases hst
  | go t now => exact ⟨t, decide_eq_true rfl⟩
  | notify t target => exact ⟨t, decide_eq_true rfl⟩
  | wake t => exact ⟨t, decide_eq_true rfl⟩
  | recheck t timedOut => exact ⟨t, decide_eq_true rfl⟩

/-- A check after a wake-up before the timeout, of whichever thread. -/
def checksEarly : ChainAct → Bool
  | .command b          => CommandPath.early b
  | .recheck _ timedOut => !timedOut
  | _                   => false

theorem sum_early (a : ChainAct) : ∑ t, (early t a).toNat = (checksEarly a).toNat := by
  cases a with
  | command b =>
    show ∑ t, (decide (t = ChainTask.observerIncoming) && CommandPath.early b).toNat = (CommandPath.early b).toNat
    cases CommandPath.early b <;> rfl
  | recheck u timedOut => cases u <;> cases timedOut <;> rfl
  | _ => rfl

theorem checksEarly_of_own {a : ChainAct} {t : ChainTask} (hown : own t a = true) (he : early t a = false) :
    checksEarly a = false := by
  cases a with
  | command b =>
    obtain ⟨ht, -⟩ := (Bool.and_eq_true _ _).mp hown
    exact (Bool.and_eq_false_iff.1 he).resolve_left (by rw [ht]; exact fun h => by cases h)
  | recheck u timedOut =>
    have hut : decide (u = t) = true := hown
    exact (Bool.and_eq_false_iff.1 he).resolve_left (by rw [hut]; exact fun h => by cases h)
  | _ => rfl

/-! ## The joins -/

/-- The joins before the end of `stopAllThreads`, and its return. -/
def joins : ManagerPc → Nat
  | .joining rest _ => rest.length + 1
  | _               => 0

/-- The steps before the return of `stopAllThreads`, if no thread checks early. -/
def remaining (s : Chain) : Nat := ∑ t, s.toExit t + joins s.manager.pc

/-- What holds from `stopAllThreads`' joins to its return, if each thread that runs is told to stop. -/
structure Stopping (s : Chain) : Prop where
  reachable : machine.Reachable s
  joining   : s.manager.pc ≠ .idle → ∃ rest clear, s.manager.pc = .joining rest clear
  told      : ∀ t, s.pc t ≠ .exited → s.stopRequested t = true

theorem remaining_le (hs : machine.Reachable s) {rest : List TaskId} {clear : Bool}
    (hpc : s.manager.pc = .joining rest clear) : s.remaining ≤ 146 + rest.length := by
  have hle : ∑ t, s.toExit t ≤ 145 :=
    Finset.sum_le_card_nsmul Finset.univ s.toExit 29 (fun t _ => toExit_le (reachable_outbox hs) t)
  unfold remaining
  rw [hpc]
  show ∑ t, s.toExit t + (rest.length + 1) ≤ 146 + rest.length
  omega

/-- A join, or the return. -/
theorem Stopping.withManager (h : Stopping s) {b : ManagerAct} {m : ThreadManager} {rest : List TaskId} {clear : Bool}
    (hpc : s.manager.pc = .joining rest clear) (hok : s.allowed b = true) (hst : s.manager.step b = some m)
    (hr : machine.Reachable (s.withManager m)) :
    Stopping (s.withManager m) ∧ 1 + (s.withManager m).remaining ≤ s.remaining := by
  obtain ⟨hrun, hreq, hnext⟩ := ThreadManager.joining_step hpc (fun t he => by rw [he] at hok; cases hok)
    (fun k he => by rw [he] at hok; cases hok) hst
  have hpcs : (s.withManager m).pc = s.pc := by
    funext t
    refine if_neg (fun hstarted => ?_)
    have hsame : m.running (taskId t) = s.manager.running (taskId t) := congrArg TaskRun.running (congrFun hrun _)
    have hstarted : (!s.manager.running (taskId t) && m.running (taskId t)) = true := hstarted
    rw [hsame, Bool.not_and_self] at hstarted
    cases hstarted
  have htold : (s.withManager m).stopRequested = s.stopRequested := by
    funext t
    show ((m.run _).stopped || (m.run _).token.any m.requested) = _
    rw [hrun, hreq]
    rfl
  have hexit : (s.withManager m).toExit = s.toExit := by
    funext t
    exact toExit_frame (congrFun hpcs t) rfl (fun _ => rfl)
  refine ⟨⟨hr, fun hbusy => ?_, fun t => by rw [hpcs, htold]; exact h.told t⟩, ?_⟩
  · rcases hnext with ⟨u, rest', -, hpc'⟩ | ⟨-, hpc'⟩
    · exact ⟨rest', clear, hpc'⟩
    · exact absurd hpc' hbusy
  · unfold remaining
    rw [hexit, hpc]
    show 1 + (∑ t, s.toExit t + joins m.pc) ≤ ∑ t, s.toExit t + (rest.length + 1)
    rcases hnext with ⟨u, rest', rfl, hpc'⟩ | ⟨rfl, hpc'⟩
    · rw [hpc', List.length_cons]
      show 1 + (_ + (rest'.length + 1)) ≤ _
      omega
    · rw [hpc']
      show 1 + (_ + 0) ≤ _ + (0 + 1)
      omega

/-- **A step of a thread's brings the return nearer**, but for an early check. -/
theorem remaining_step {a : ChainAct} (h : Stopping s) (hbusy : s.manager.pc ≠ .idle) (ha : ∀ b, a ≠ .manager b)
    (hst : s.step a = some s') (hpc : s'.manager.pc = s.manager.pc) :
    1 + s'.remaining ≤ 6 * (checksEarly a).toNat + s.remaining := by
  have hl := (reachable_flowInv h.reachable).1
  have hw := reachable_waits h.reachable
  have hf := CommandPath.reachable_waiterFits (reachable_cmdPath h.reachable)
  have heach : ∀ t, (own t a).toNat + s'.toExit t ≤ 6 * (early t a).toNat + s.toExit t := by
    intro t
    by_cases hexit : s.pc t = .exited
    · obtain ⟨hexit', hown⟩ := exited_stays hw ha hexit hst
      have hzero : s'.toExit t = 0 := by unfold toExit; rw [hexit']; rfl
      rw [hown, hzero]
      exact Nat.zero_le _
    · exact toExit_step hl (reachable_synced h.reachable) hw hf hexit (h.told t hexit) hst
  obtain ⟨u, hu⟩ := exists_owner (reachable_mainInv h.reachable) hbusy ha hst
  have hone : 1 ≤ ∑ t, (own t a).toNat := by
    have hle := Finset.single_le_sum (f := fun t => (own t a).toNat) (fun _ _ => Nat.zero_le _) (Finset.mem_univ u)
    rwa [hu] at hle
  have hsum := Finset.sum_le_sum (s := Finset.univ) (fun t _ => heach t)
  rw [Finset.sum_add_distrib, Finset.sum_add_distrib, ← Finset.mul_sum, sum_early] at hsum
  unfold remaining
  rw [hpc]
  omega

theorem stopping_step {a : ChainAct} (h : Stopping s)
    (hst : (machine.only (fun u _ => u.manager.pc ≠ .idle)).step s a = some s') :
    Stopping s' ∧ 1 + s'.remaining ≤ 6 * (checksEarly a).toNat + s.remaining := by
  obtain ⟨hbusy, hst⟩ := Machine.only_step.1 hst
  have hbusy : s.manager.pc ≠ .idle := of_decide_eq_true hbusy
  have hr : machine.Reachable s' := .step a h.reachable hst
  obtain ⟨rest, clear, hpc⟩ := h.joining hbusy
  by_cases hm : ∃ b, a = .manager b
  · obtain ⟨b, rfl⟩ := hm
    have hst : s.step (.manager b) = some s' := hst
    simp only [step] at hst
    split at hst
    · rename_i hok
      obtain ⟨m, hm, rfl⟩ := Option.map_eq_some_iff.1 hst
      rw [Bool.and_eq_true] at hok
      obtain ⟨hnext, hle⟩ := h.withManager hpc hok.1 hm hr
      exact ⟨hnext, Nat.le_trans hle (Nat.le_add_left _ _)⟩
    · cases hst
  · have ha : ∀ b, a ≠ .manager b := not_exists.1 hm
    have hsame : s'.manager.pc = s.manager.pc := by
      rcases manager_step ha hst with heq | ⟨t, -, hfin⟩
      · rw [heq]
      · exact (finish_frame hfin).1
    refine ⟨⟨hr, fun _ => ⟨rest, clear, hsame.trans hpc⟩, fun t hlive => ?_⟩, remaining_step h hbusy ha hst hsame⟩
    have hlive' : s.pc t ≠ .exited := fun he => hlive (exited_stays (reachable_waits h.reachable) ha he hst).1
    exact stopRequested_step h.reachable hlive' (h.told t hlive') hst

/-- **Some step goes on until `stopAllThreads` has returned**: a thread's own, or the next join. -/
theorem Stopping.exists_next (h : Stopping s) (hbusy : s.manager.pc ≠ .idle) :
    ∃ a, checksEarly a = false ∧ (s.step a).isSome = true := by
  have hinv := reachable_mainInv h.reachable
  by_cases hlive : ∃ t, s.pc t ≠ .exited
  · obtain ⟨t, hlive⟩ := hlive
    have hinit : ({} : SpScRingBuffer ObserverCommand).init 8 = (CommandPath.cmdBuffer, true) := rfl
    have hring := Spsc.reachable_inv hinit (CommandPath.reachable_ring (reachable_cmdPath h.reachable))
    obtain ⟨a, hown, hearly, hsome⟩ := exists_own (reachable_flowInv h.reachable).1 (reachable_synced h.reachable)
      hring (reachable_waits h.reachable) (CommandPath.reachable_waiterFits (reachable_cmdPath h.reachable)) hlive
      (h.told t hlive)
    exact ⟨a, checksEarly_of_own hown hearly, hsome⟩
  · -- nothing runs, and the next join returns
    have hnone : ∀ u, s.manager.running u = false := by
      intro u
      by_contra hrun
      have hrun : s.manager.running u = true := by simpa using hrun
      have hmem := (ThreadManager.reachable_runningInv (reachable_manager h.reachable)).registered u hrun
      obtain ⟨t, rfl⟩ := hinv.ours u (List.mem_append_left _ hmem)
      exact hlive ⟨t, hinv.runs t hrun⟩
    have hsender := hinv.sender hbusy
    obtain ⟨rest, clear, hpc⟩ := h.joining hbusy
    cases rest with
    | nil => exact ⟨.manager .done, rfl, by simp [step, allowed, hsender, ThreadManager.step, hpc]⟩
    | cons u rest => exact ⟨.manager .join, rfl, by simp [step, allowed, hsender, ThreadManager.step, hpc, hnone u]⟩

/-! ## A thread that has not been told -/

/-- `stopAllThreads` waits for a thread that it has not told. -/
structure Stuck (t : ChainTask) (s : Chain) : Prop where
  reachable : machine.Reachable s
  joining   : ∃ rest clear, s.manager.pc = .joining rest clear
  running   : s.manager.running (taskId t) = true
  untold    : s.stopRequested t = false

theorem stuck_step {t : ChainTask} {a : ChainAct} (h : Stuck t s) (hst : s.step a = some s') : Stuck t s' := by
  have hr : machine.Reachable s' := .step a h.reachable hst
  obtain ⟨rest, clear, hpc⟩ := h.joining
  by_cases hm : ∃ b, a = .manager b
  · obtain ⟨b, rfl⟩ := hm
    simp only [step] at hst
    split at hst
    · rename_i hok
      obtain ⟨m, hm, rfl⟩ := Option.map_eq_some_iff.1 hst
      rw [Bool.and_eq_true] at hok
      obtain ⟨hrun, hreq, hnext⟩ := ThreadManager.joining_step hpc (fun u he => by rw [he] at hok; cases hok.1)
        (fun k he => by rw [he] at hok; cases hok.1) hm
      refine ⟨hr, ?_, ?_, ?_⟩
      · rcases hnext with ⟨u, rest', -, hpc'⟩ | ⟨rfl, -⟩
        · exact ⟨rest', clear, hpc'⟩
        · -- all that runs is yet to be joined
          have hnone := (ThreadManager.reachable_runningInv (reachable_manager h.reachable)).none_running hpc (taskId t)
          rw [h.running] at hnone
          cases hnone
      · show (m.run (taskId t)).running = true
        rw [hrun]
        exact h.running
      · show ((m.run _).stopped || (m.run _).token.any m.requested) = false
        rw [hrun, hreq]
        exact h.untold
    · cases hst
  · rcases manager_step (not_exists.1 hm) hst with heq | ⟨u, hstop, hfin⟩
    · refine ⟨hr, by rw [heq]; exact h.joining, by rw [heq]; exact h.running, ?_⟩
      unfold stopRequested
      rw [heq]
      exact h.untold
    · have hut : taskId t ≠ taskId u := fun he => by
        cases he
        rw [h.untold] at hstop
        cases hstop
      obtain ⟨hpc', hreq, hrun⟩ := finish_frame hfin
      refine ⟨hr, by rw [hpc']; exact h.joining, ?_, ?_⟩
      · unfold ThreadManager.running
        rw [hrun _ hut]
        exact h.running
      · unfold stopRequested
        rw [hrun _ hut, hreq]
        exact h.untold

/-! ## The return -/

/-- **`stopAllThreads` returns, in whatever order the threads go on, exactly if it has told each that runs.**  From its
joins on, the chain takes at most as many steps as the five threads have to their ends, one for each join and one to
return, and six more for each check before a timeout; until it has returned there is a next one.  A thread that runs
and has not been told keeps it from returning. -/
theorem stopAllThreads_returns {s s' : Chain} (hs : machine.Reachable s) {rest : List TaskId} {clear : Bool}
    (hpc : s.manager.pc = .joining rest clear) (as : List ChainAct)
    (hrun : (machine.only (fun u _ => u.manager.pc ≠ .idle)).runFrom s as = some s') :
    ((∀ t, s.pc t ≠ .exited → s.stopRequested t = true) →
      as.length ≤ 146 + rest.length + 6 * as.countP checksEarly ∧
      (s'.manager.pc = .idle ∨ ∃ a, checksEarly a = false ∧ (s'.step a).isSome = true)) ∧
    ((∃ t, s.pc t ≠ .exited ∧ s.stopRequested t = false) → s'.manager.pc ≠ .idle) := by
  refine ⟨fun htold => ?_, fun ⟨t, hlive, huntold⟩ => ?_⟩
  · have hstart : Stopping s := ⟨hs, fun _ => ⟨rest, clear, hpc⟩, htold⟩
    obtain ⟨hend, hle⟩ := Machine.countP_le_of_measure (P := Stopping) remaining (fun _ => true) checksEarly 6
      (fun _ _ _ hu hst => stopping_step hu hst) as hstart hrun
    refine ⟨?_, ?_⟩
    · have hbound := remaining_le hs hpc
      rw [List.countP_true] at hle
      omega
    · by_cases hidle : s'.manager.pc = .idle
      · exact .inl hidle
      · exact .inr (hend.exists_next hidle)
  · have hstart : Stuck t s :=
      ⟨hs, ⟨rest, clear, hpc⟩, running_of_live (reachable_flowInv hs).1 hlive, huntold⟩
    have hend := Machine.runFrom_invariant (I := Stuck t)
      (fun _ _ _ hu hst => stuck_step hu (Machine.only_step.1 hst).2) as hstart hrun
    obtain ⟨rest', clear', hpc'⟩ := hend.joining
    rw [hpc']
    exact fun he => by cases he

/-- Two threads that are told and end, one at its loop's head and one at its timeout; and one that a restart has cut
off, and that goes on. -/
theorem stopAllThreads_returns_twice :
    (∃ (s s' : Chain) (as : List ChainAct), s.pc .observerIncoming = .head ∧ s.pc .appObserver = .waiting ∧
      s'.manager.pc = .idle ∧ as.length = 9 ∧ as.length ≤ 148 + 6 * as.countP checksEarly) ∧
    ∃ s s' : Chain, s.manager.pc = .joining [taskId .observerIncoming] false ∧
      s'.pc .observerIncoming = .waitCommand ∧ s'.manager.pc ≠ .idle := by
  refine ⟨?_, ?_⟩
  · obtain ⟨s, hs⟩ : ∃ s, machine.runFrom machine.init
        [.manager .initTestChain, .manager (.start true), .manager (.start true), .manager (.start false),
         .manager (.start false), .manager (.start false), .manager .done, .go .appObserver 0,
         .manager .stopAllThreads] = some s := ⟨_, rfl⟩
    obtain ⟨s', hrun⟩ : ∃ s', (machine.only (fun u _ => u.manager.pc ≠ .idle)).runFrom s
        [.go .observerIncoming 0, .wake .appObserver, .manager .join, .recheck .appObserver true, .go .appObserver 0,
         .go .appObserver 0, .go .appObserver 0, .manager .join, .manager .done] = some s' := by
      cases hs; exact ⟨_, rfl⟩
    have hpc : s.manager.pc = .joining [taskId .observerIncoming, taskId .appObserver] false := by cases hs; rfl
    have htold : ∀ t, s.pc t ≠ .exited → s.stopRequested t = true := by
      cases hs
      intro t ht
      cases t <;> first | rfl | exact absurd rfl ht
    have hplaces : s.pc .observerIncoming = .head ∧ s.pc .appObserver = .waiting := by cases hs; exact ⟨rfl, rfl⟩
    have hidle : s'.manager.pc = .idle := by
      cases hs
      cases hrun
      rfl
    obtain ⟨hle, -⟩ := (stopAllThreads_returns (Machine.reachable_of_run _ hs) hpc _ hrun).1 htold
    exact ⟨s, s', _, hplaces.1, hplaces.2, hidle, rfl, hle⟩
  · obtain ⟨s, hs⟩ : ∃ s, machine.runFrom machine.init
        [.manager .initTestChain, .manager (.start true), .manager (.start false), .manager (.start false),
         .manager (.start false), .manager (.start false), .manager .done, .manager .restartAllThreads,
         .manager (.start true), .manager .done, .manager .stopAllThreads] = some s := ⟨_, rfl⟩
    obtain ⟨s', hrun⟩ : ∃ s', (machine.only (fun u _ => u.manager.pc ≠ .idle)).runFrom s [.go .observerIncoming 0] =
        some s' := by cases hs; exact ⟨_, rfl⟩
    have hpc : s.manager.pc = .joining [taskId .observerIncoming] false := by cases hs; rfl
    have huntold : s.pc .observerIncoming ≠ .exited ∧ s.stopRequested .observerIncoming = false := by
      cases hs
      exact ⟨(fun he => by cases he), rfl⟩
    have hplace : s'.pc .observerIncoming = .waitCommand := by
      cases hs
      cases hrun
      rfl
    have hnot := (stopAllThreads_returns (Machine.reachable_of_run _ hs) hpc _ hrun).2 ⟨_, huntold⟩
    exact ⟨s, s', hpc, hplace, hnot⟩

end Chain
end ThreadMessaging

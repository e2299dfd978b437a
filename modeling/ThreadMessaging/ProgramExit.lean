import ThreadMessaging.Program
import ThreadMessaging.ManagerStopped
/-!
# How the program ends

`main` ends through the destructor of its manager, which joins every registered task and then the manager's own worker:
when the program has ended no thread is left (`exited_stopped`).  Tasks are registered by `initTestChain` alone, so a
`terminateAllThreads` on the way leaves the rest of the run without any (`unregistered_forever`).
-/
namespace ThreadMessaging
namespace Program

variable {options : List (Option Char)}

/-- Nothing runs and nothing is registered. -/
structure Ended (m : ThreadManager) : Prop where
  tasks   : m.tasks = []
  running : ∀ t, m.running t = false

/-- What there is to stop, before it is started and after it has been stopped. -/
def Life (m : ThreadManager) (w : TaskRun) : MainPc → Prop
  | .commandLine   => m = ThreadManager.init ∧ w.running = false
  | .makeDaemon    => m = ThreadManager.init ∧ w.running = false
  | .initTestChain => m = ThreadManager.init ∧ w.running = false
  | .adding        => w.running = false
  | .startAll      => w.running = false
  | .leaving _     => w.stopped = true ∧ Ended m
  | .exited _      => w.running = false ∧ Ended m
  | _              => True

theorem ended_init : Ended ThreadManager.init := ⟨rfl, fun _ => rfl⟩

theorem Ended.not_finish {m m' : ThreadManager} (h : Ended m) {t : TaskId} : m.step (.finish t) ≠ some m' := by
  intro hst
  simp only [ThreadManager.step, h.running t] at hst
  cases hst

theorem Ended.not_popCommand {m m' : ThreadManager} (h : Ended m) {k : Nat} : m.step (.popCommand k) ≠ some m' := by
  intro hst
  simp only [ThreadManager.step, h.running] at hst
  cases hst

theorem life_goes {pc pc' : MainPc} (h : Goes pc pc') {m : ThreadManager} {w : TaskRun} (hl : Life m w pc)
    (hleft : ∀ status, pc = .leaving status → w.running = false) : Life m w pc' := by
  cases h with
  | usage => exact ⟨hl.2, hl.1 ▸ ended_init⟩
  | parsed => exact hl
  | background => exact hl
  | parent => exact ⟨hl.2, hl.1 ▸ ended_init⟩
  | child => exact hl
  | failed => trivial
  | noKey => trivial
  | left status => exact ⟨hleft status rfl, hl.2⟩

theorem life_operates {pc pc' : MainPc} {b : ManagerAct} (h : Operates pc b pc') {m m' : ThreadManager}
    {w w' : TaskRun} (hr : m.RunningInv) (hat : managerAt pc m.pc = true) (hl : Life m w pc)
    (hst : m.step b = some m') (hw : w' = w ∧ (∀ status, pc' ≠ .leaving status) ∨ w' = w.stop) : Life m' w' pc' := by
  have hrun : w'.running = w.running := by
    rcases hw with ⟨rfl, -⟩ | rfl
    · rfl
    · rfl
  cases h with
  | initTestChain => exact hrun.trans hl.2
  | add ok => exact hrun.trans hl
  | added => exact hrun.trans hl
  | terminated status =>
    rcases hw with ⟨-, hne⟩ | rfl
    · exact absurd rfl (hne status)
    · refine ⟨rfl, ?_⟩
      simp only [ThreadManager.step] at hst
      split at hst
      · rename_i hpc; rw [hpc] at hat; cases hat
      · rename_i hpc; rw [hpc] at hat; cases hat
      · rename_i clear hpc
        rw [hpc] at hat
        cases clear with
        | false => cases hat
        | true =>
          cases hst
          exact ⟨rfl, fun t => hr.none_running hpc t⟩
      · cases hst
  | _ => trivial

theorem life_calls {pc pc' : MainPc} {d : DaemonPc} {b : DaemonAct} (h : Calls pc d b pc') {m : ThreadManager}
    {w w' : TaskRun} (hl : Life m w pc) (hw : w' = w ∨ pc = .starting) : Life m w' pc' := by
  have hsame : Life m w' pc := by
    rcases hw with rfl | rfl
    · exact hl
    · trivial
  cases h with
  | signal sig => exact hsame
  | inside _ _ hd => exact hsame
  | ret _ _ b h =>
    unfold afterCall at h
    split at h <;> cases h <;> trivial
  | _ => trivial

/-- **Where nothing runs nothing happens to the manager beside `main`.** -/
theorem life_beside {pc : MainPc} {m m' : ThreadManager} {w : TaskRun} (hl : Life m w pc)
    (hm : Ended m → m' = m) : Life m' w pc := by
  cases pc with
  | commandLine => exact ⟨(hm (hl.1 ▸ ended_init)).trans hl.1, hl.2⟩
  | makeDaemon => exact ⟨(hm (hl.1 ▸ ended_init)).trans hl.1, hl.2⟩
  | initTestChain => exact ⟨(hm (hl.1 ▸ ended_init)).trans hl.1, hl.2⟩
  | leaving status => exact ⟨hl.1, (hm hl.2).symm ▸ hl.2⟩
  | exited status => exact ⟨hl.1, (hm hl.2).symm ▸ hl.2⟩
  | adding => exact hl
  | startAll => exact hl
  | _ => trivial

theorem life_worker {pc : MainPc} {m : ThreadManager} {w w' : TaskRun} (hl : Life m w pc)
    (hw : w' = w.stop ∨ w' = w.finish) : Life m w' pc := by
  have hrun : w.running = false → w'.running = false := by
    rcases hw with rfl | rfl
    · exact id
    · exact fun _ => rfl
  have hstop : w.stopped = true → w'.stopped = true := by
    rcases hw with rfl | rfl
    · exact fun _ => rfl
    · exact id
  cases pc with
  | commandLine => exact ⟨hl.1, hrun hl.2⟩
  | makeDaemon => exact ⟨hl.1, hrun hl.2⟩
  | initTestChain => exact ⟨hl.1, hrun hl.2⟩
  | leaving status => exact ⟨hstop hl.1, hl.2⟩
  | exited status => exact ⟨hrun hl.1, hl.2⟩
  | adding => exact hrun hl
  | startAll => exact hrun hl
  | _ => trivial

theorem life_step {p q : Program} {a : ProgramAct} (hr : p.manager.RunningInv) (hat : p.Placed)
    (h : Life p.manager p.worker p.pc) (hst : p.step a = some q) : Life q.manager q.worker q.pc := by
  rcases steps_of_step hst with ⟨hpc, hm, -, hw, hleft⟩ | ⟨b, hpc, hm, -, hw, -⟩ | ⟨t, -, hm, hpc, -, hw⟩ |
    ⟨hm, hpc, -, hw⟩ | ⟨b, hpc, -, hm, hw⟩ | ⟨hpc, hm, -, hw⟩
  · rw [hm, hw]
    exact life_goes hpc h hleft
  · exact life_operates hpc hr hat.manager h hm hw
  · rw [hpc, hw]
    exact life_beside h (fun he => absurd hm he.not_finish)
  · rw [hpc, hw]
    exact life_beside h (fun he => absurd hm he.not_popCommand)
  · rw [hm]
    exact life_calls hpc h hw
  · rw [hpc, hm]
    exact life_worker h hw

theorem reachable_life {p : Program} (hp : (machine options).Reachable p) : Life p.manager p.worker p.pc := by
  have hinit : Life ThreadManager.init {} .commandLine := ⟨rfl, rfl⟩
  refine Machine.Reachable.invariant_of (I := fun p => Life p.manager p.worker p.pc)
    (J := fun p => p.manager.RunningInv ∧ p.Placed) (fun q hq => ?_) hinit (fun q a r hJ hI hst => ?_) hp
  · exact ⟨ThreadManager.reachable_runningInv (reachable_manager hq), reachable_placed hq⟩
  · exact life_step hJ.1 hJ.2 hI hst

/-- **When the program has ended, no chain thread and no worker is left running**, whichever way it ended: by an option,
by a failure to go into the background or to start, or through the loop. -/
theorem exited_stopped {p : Program} (hp : (machine options).Reachable p) {status : Nat} (hpc : p.pc = .exited status) :
    p.manager.tasks = [] ∧ (∀ t, p.manager.running t = false) ∧ p.worker.running = false := by
  have hl := reachable_life hp
  rw [hpc] at hl
  exact ⟨hl.2.tasks, hl.2.running, hl.1⟩

/-- A run with one chain thread, in which a SIGTERM ends the loop. -/
theorem exited_stopped_sigterm : ∃ p : Program, p.daemon.history.length = 3 ∧
    p.manager.tasks = [] ∧ (∀ t, p.manager.running t = false) ∧ p.worker.running = false := by
  obtain ⟨p, hrun⟩ : ∃ p, (machine []).runFrom (machine []).init
      [.go, .go, .manager (.start false), .manager (.start false), .manager (.start false), .manager (.start false),
       .manager (.start true), .manager .done, .go, .daemon, .startWorker true, .daemon, .signal .sigterm, .go, .daemon,
       .daemon, .daemon, .daemon, .daemon, .go, .go, .daemon, .stopWorker, .finishWorker, .joinWorker, .daemon, .go,
       .finish (.chain 0 .result), .manager .join, .manager .done, .go] = some p := ⟨_, rfl⟩
  have hpc : p.pc = .exited 0 := by cases hrun; rfl
  have hlen : p.daemon.history.length = 3 := by cases hrun; rfl
  exact ⟨p, hlen, exited_stopped (Machine.reachable_of_run _ hrun) hpc⟩

/-! ## A registry that has been cleared -/

/-- `main` adds no more tasks. -/
def pastChain : MainPc → Bool
  | .commandLine   => false
  | .makeDaemon    => false
  | .initTestChain => false
  | .adding        => false
  | _              => true

theorem pastChain_goes {pc pc' : MainPc} (h : Goes pc pc') (hpast : pastChain pc = true) : pastChain pc' = true := by
  cases h <;> first | rfl | cases hpast

theorem pastChain_operates {pc pc' : MainPc} {b : ManagerAct} (h : Operates pc b pc') (hpast : pastChain pc = true) :
    pastChain pc' = true := by
  cases h <;> first | rfl | cases hpast

theorem pastChain_calls {pc pc' : MainPc} {d : DaemonPc} {b : DaemonAct} (h : Calls pc d b pc')
    (hpast : pastChain pc = true) : pastChain pc' = true := by
  cases h with
  | signal sig => exact hpast
  | inside _ _ hd => exact hpast
  | ret _ _ b hret =>
    unfold afterCall at hret
    split at hret <;> cases hret <;> rfl
  | _ => rfl

theorem pastChain_step {p q : Program} {a : ProgramAct} (h : pastChain p.pc = true) (hst : p.step a = some q) :
    pastChain q.pc = true := by
  rcases steps_of_step hst with ⟨hpc, -, -, -, -⟩ | ⟨b, hpc, -, -, -, -⟩ | ⟨t, -, -, hpc, -, -⟩ | ⟨-, hpc, -, -⟩ |
    ⟨b, hpc, -, -, -⟩ | ⟨hpc, -, -, -⟩
  · exact pastChain_goes hpc h
  · exact pastChain_operates hpc h
  · rw [hpc]; exact h
  · rw [hpc]; exact h
  · exact pastChain_calls hpc h
  · rw [hpc]; exact h

/-- **Past the chain no step registers a task.** -/
theorem tasks_subset_step {p q : Program} {a : ProgramAct} (hat : p.Placed) (h : pastChain p.pc = true)
    (hst : p.step a = some q) : ∀ t ∈ q.manager.tasks, t ∈ p.manager.tasks := by
  have hstep : ∀ b, p.manager.step b = some q.manager → ∀ t ∈ q.manager.tasks, t ∈ p.manager.tasks := by
    intro b hb
    rcases ThreadManager.tasks_step hb with ⟨heq, -⟩ | ⟨t, rest, ok, -, hpc, -, -, -⟩ | ⟨t, -, -, heq⟩ | ⟨-, heq⟩
    · rw [heq]; exact fun _ ht => ht
    · have hadd := hat.manager
      rw [hpc] at hadd
      have hpc : p.pc = .adding := by
        generalize p.pc = pc at hadd
        cases pc <;> first | rfl | cases hadd
      rw [hpc] at h; cases h
    · rw [heq]; exact fun _ ht => (List.dropLast_sublist _).subset ht
    · rw [heq]; exact fun _ ht => absurd ht List.not_mem_nil
  rcases steps_of_step hst with ⟨-, hm, -, -, -⟩ | ⟨b, -, hm, -, -, -⟩ | ⟨t, -, hm, -, -, -⟩ | ⟨hm, -, -, -⟩ |
    ⟨b, -, -, hm, -⟩ | ⟨-, hm, -, -⟩
  · rw [hm]; exact fun _ ht => ht
  · exact hstep b hm
  · exact hstep (.finish t) hm
  · exact hstep (.popCommand 0) hm
  · rw [hm]; exact fun _ ht => ht
  · rw [hm]; exact fun _ ht => ht

/-- **What is out of the registry once the chain has been added never runs again**, whichever keys are pressed and
signals arrive: `restartAllThreads` starts registered tasks only, and after `terminateAllThreads` there are none. -/
theorem unregistered_forever {p q : Program} (hp : (machine options).Reachable p) (hpast : pastChain p.pc = true)
    {t : TaskId} (ht : t ∉ p.manager.tasks) (as : List ProgramAct) (hrun : (machine options).runFrom p as = some q) :
    t ∉ q.manager.tasks ∧ q.manager.running t = false := by
  obtain ⟨hq, -, hnot⟩ : (machine options).Reachable q ∧ pastChain q.pc = true ∧ t ∉ q.manager.tasks := by
    refine Machine.runFrom_invariant (I := fun r => (machine options).Reachable r ∧ pastChain r.pc = true ∧
      t ∉ r.manager.tasks) (fun r a r' hI hst => ?_) as ⟨hp, hpast, ht⟩ hrun
    obtain ⟨hr, hpast, hnot⟩ := hI
    exact ⟨.step a hr hst, pastChain_step hpast hst,
      fun hmem => hnot (tasks_subset_step (reachable_placed hr) hpast hst t hmem)⟩
  refine ⟨hnot, ?_⟩
  cases hrun : q.manager.running t with
  | false => rfl
  | true => exact absurd ((ThreadManager.reachable_runningInv (reachable_manager hq)).registered t hrun) hnot

/-- The terminate key, and the restart key after it. -/
theorem unregistered_forever_restarted : ∃ q : Program, q.manager.stopSource = 1 ∧
    q.manager.running (.chain 0 .result) = false := by
  obtain ⟨p, hrun⟩ : ∃ p, (machine []).runFrom (machine []).init
      [.go, .go, .manager (.start false), .manager (.start false), .manager (.start false), .manager (.start false),
       .manager (.start true), .manager .done, .go, .daemon, .startWorker true, .daemon, .go, .daemon, .daemon,
       .daemon, .daemon, .daemon, .key (some 't'), .finish (.chain 0 .result), .manager .join, .manager .done] =
      some p := ⟨_, rfl⟩
  have hpast : pastChain p.pc = true := by cases hrun; rfl
  have hnot : TaskId.chain 0 .result ∉ p.manager.tasks := by cases hrun; exact List.not_mem_nil
  obtain ⟨q, hrun'⟩ : ∃ q, (machine []).runFrom p
      [.go, .daemon, .daemon, .daemon, .daemon, .daemon, .key (some 'r'), .manager .done] = some q := by
    cases hrun; exact ⟨_, rfl⟩
  have hsrc : q.manager.stopSource = 1 := by cases hrun; cases hrun'; rfl
  exact ⟨q, hsrc, (unregistered_forever (Machine.reachable_of_run _ hrun) hpast hnot _ hrun').2⟩

end Program
end ThreadMessaging

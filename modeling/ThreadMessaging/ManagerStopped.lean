import ThreadMessaging.ManagerRegistry
/-!
# What runs is registered

A task runs only once `start` has returned true for it, and then it is registered; it is taken out of the registry only
after it has been joined.  So the loop of `stopAllThreads`, which joins the registry, joins all that runs, whichever
operations have come before it, and when it returns nothing runs (`stopped_all`).
-/
namespace ThreadMessaging
namespace ThreadManager

/-- Every running task is registered, and those that a loop of a stop has yet to join are before it. -/
structure RunningInv (s : ThreadManager) : Prop where
  registered : ∀ t, s.running t = true → t ∈ s.tasks
  restarting : ∀ rest, s.pc = .restarting rest → ∀ t ∈ rest, t ∈ s.tasks
  joining    : ∀ rest clear, s.pc = .joining rest clear → ∀ t, s.running t = true → t ∈ rest

theorem running_startTask {s : ThreadManager} {t u : TaskId} {ok : Bool}
    (hr : (s.startTask t ok).1.running u = true) : s.running u = true ∨ (u = t ∧ (s.startTask t ok).2 = true) := by
  rcases s.startTask_cases t ok with ⟨hok, -, -, heq⟩ | ⟨-, -, heq⟩
  · rw [heq] at hr
    have hr : ((s.setRun t _).run u).running = true := hr
    by_cases hut : u = t
    · exact .inr ⟨hut, hok⟩
    · rw [run_setRun_of_ne _ hut] at hr
      exact .inl hr
  · rw [heq] at hr
    exact .inl hr

theorem running_addStep {s : ThreadManager} {t u : TaskId} {ok : Bool} (hr : (s.addStep t ok).running u = true) :
    (s.startTask t ok).1.running u = true := by
  unfold addStep at hr
  dsimp only at hr
  split at hr
  · exact hr
  · exact hr

theorem running_restartStep {s : ThreadManager} {t u : TaskId} {ok : Bool}
    (hr : (s.restartStep t ok).running u = true) : s.running u = true ∨ u = t := by
  unfold restartStep at hr
  split at hr
  · exact .inl hr
  · exact (running_startTask hr).imp_right And.left

theorem running_finish {s : ThreadManager} {t u : TaskId} (hr : (s.setRun t (s.run t).finish).running u = true) :
    s.running u = true ∧ u ≠ t := by
  have hr : ((s.setRun t (s.run t).finish).run u).running = true := hr
  by_cases hut : u = t
  · rw [hut, run_setRun] at hr; cases hr
  · rw [run_setRun_of_ne _ hut] at hr
    exact ⟨hr, hut⟩

theorem RunningInv.call {s s' : ThreadManager} {a : ManagerAct} (h : RunningInv s) (hst : s.callStep a = some s') :
    RunningInv s' := by
  have hreg : ∀ t, s'.running t = true → t ∈ s'.tasks := fun t ht => by
    rw [(callStep_frame hst).1]
    exact h.registered t ((callStep_run hst t).1 ▸ ht)
  unfold callStep at hst
  split at hst
  · cases hst; exact ⟨hreg, nofun, nofun⟩
  · cases hst; exact h
  · cases hst; exact ⟨hreg, nofun, nofun⟩
  · cases hst; exact ⟨hreg, fun rest hpc t ht => by cases hpc; exact ht, nofun⟩
  · cases hst; exact ⟨hreg, nofun, fun rest clear hpc t ht => by cases hpc; exact h.registered t ht⟩
  · cases hst; exact ⟨hreg, nofun, fun rest clear hpc t ht => by cases hpc; exact h.registered t ht⟩
  · split at hst
    · cases hst; exact ⟨hreg, nofun, nofun⟩
    · cases hst; exact h
  · cases hst
    obtain ⟨buffer, sent, heq⟩ := s.sendObserverCommand_eq _
    rw [heq] at hreg ⊢
    exact ⟨hreg, h.restarting, h.joining⟩
  · cases hst; exact ⟨hreg, h.restarting, h.joining⟩
  · cases hst

theorem RunningInv.addStep {s : ThreadManager} (h : RunningInv s) (t : TaskId) (ok : Bool) {u : TaskId}
    (hu : (s.addStep t ok).running u = true) : u ∈ (s.addStep t ok).tasks := by
  rw [(s.addStep_registry t ok).1]
  rcases running_startTask (running_addStep hu) with hr | ⟨rfl, hok⟩
  · split
    · exact List.mem_append_left _ (h.registered u hr)
    · exact h.registered u hr
  · rw [if_pos hok]
    exact List.mem_append_right _ (List.mem_singleton_self u)

theorem runningInv_step {s s' : ThreadManager} {a : ManagerAct} (hlast : s.StopsLast) (h : RunningInv s)
    (hst : s.step a = some s') : RunningInv s' := by
  rcases step_cases hst with ⟨-, hcall⟩ | ⟨t, rest, ok, -, -, rfl⟩ | ⟨t, rest, ok, -, hpc, rfl⟩ |
    ⟨t, rest, clear, -, hpc, hnot, rfl⟩ | ⟨t, -, hpc, hnot, rfl⟩ | ⟨-, -, rfl⟩ | ⟨-, hpc, rfl⟩ | ⟨t, -, -, rfl⟩ |
    ⟨k, -, -, rfl⟩
  · exact h.call hcall
  · exact ⟨fun u hu => h.addStep t ok hu, nofun, nofun⟩
  · have hrest := h.restarting _ hpc
    have htasks := (s.restartStep_registry t ok).1
    refine ⟨fun u hu => ?_, fun rest' hpc' u hu => ?_, nofun⟩
    · show u ∈ (s.restartStep t ok).tasks
      rw [htasks]
      rcases running_restartStep hu with hr | rfl
      · exact h.registered u hr
      · exact hrest u (List.mem_cons_self ..)
    · cases hpc'
      show u ∈ (s.restartStep t ok).tasks
      rw [htasks]
      exact hrest u (List.mem_cons_of_mem _ hu)
  · refine ⟨h.registered, nofun, fun rest' clear' hpc' u hu => ?_⟩
    cases hpc'
    rcases List.mem_cons.1 (h.joining _ _ hpc u hu) with rfl | hmem
    · have hu : s.running u = true := hu
      rw [hnot] at hu; cases hu
    · exact hmem
  · -- the last task does not run any more, so that all that run are before it
    refine ⟨fun u hu => ?_, nofun, nofun⟩
    have hu : s.running u = true := hu
    have hmem := h.registered u hu
    rw [← List.dropLast_append_getLast? t (hlast t hpc)] at hmem
    rcases List.mem_append.1 hmem with hmem | hmem
    · exact hmem
    · rw [List.mem_singleton.1 hmem, hnot] at hu; cases hu
  · exact ⟨h.registered, nofun, nofun⟩
  · exact ⟨fun u hu => h.joining _ _ hpc u hu, nofun, nofun⟩
  · exact ⟨fun u hu => h.registered u (running_finish hu).1, h.restarting,
      fun rest clear hpc u hu => h.joining rest clear hpc u (running_finish hu).1⟩
  · exact ⟨h.registered, h.restarting, h.joining⟩

theorem reachable_runningInv {s : ThreadManager} (hs : machine.Reachable s) : RunningInv s :=
  hs.invariant_of (I := RunningInv) (fun _ => reachable_stopsLast) ⟨nofun, nofun, nofun⟩
    (fun _ _ _ hlast h hst => runningInv_step hlast h hst)

theorem RunningInv.none_running {s : ThreadManager} (h : RunningInv s) {clear : Bool} (hpc : s.pc = .joining [] clear)
    (t : TaskId) : s.running t = false := by
  cases hr : s.running t with
  | false => rfl
  | true => exact absurd (h.joining _ _ hpc t hr) List.not_mem_nil

/-- **When `stopAllThreads` or `terminateAllThreads` returns, no task runs**, registered or not, started by whichever
operation and with whichever stop source, in every run; and what runs in between has not been joined yet. -/
theorem stopped_all {s : ThreadManager} (hs : machine.Reachable s) {rest : List TaskId} {clear : Bool}
    (hpc : s.pc = .joining rest clear) :
    (∀ t, s.running t = true → t ∈ rest ∧ t ∈ s.tasks) ∧
    ∀ s', s.step .done = some s' → (∀ t, s'.running t = false) ∧ s'.tasks = (if clear then [] else s.tasks) := by
  have h := reachable_runningInv hs
  refine ⟨fun t ht => ⟨h.joining _ _ hpc t ht, h.registered t ht⟩, fun s' hst => ?_⟩
  simp only [step, hpc] at hst
  cases rest with
  | nil =>
    cases hst
    exact ⟨fun t => h.none_running hpc t, rfl⟩
  | cons u rest => cases hst

/-- A task that was cut off by a restart and has finished since, after its manager has stopped all. -/
theorem stopped_all_cutOff : ∃ s s' : ThreadManager, s.stopSource = 1 ∧ s.step .done = some s' ∧
    (∀ t, s'.running t = false) ∧ s'.tasks = [] := by
  obtain ⟨s, hrun⟩ : ∃ s, machine.runFrom machine.init
      [.addTask (some 7), .start true, .done, .restartAllThreads, .start true, .done, .addTask (some 3), .start true,
       .done, .terminateAllThreads, .finish (.user 7), .join, .finish (.user 3), .join] = some s := ⟨_, rfl⟩
  have hpc : s.pc = .joining [] true := by cases hrun; rfl
  have hsrc : s.stopSource = 1 := by cases hrun; rfl
  obtain ⟨s', hst⟩ : ∃ s', s.step .done = some s' := by cases hrun; exact ⟨_, rfl⟩
  obtain ⟨-, hdone⟩ := stopped_all (Machine.reachable_of_run _ hrun) hpc
  exact ⟨s, s', hsrc, hst, hdone s' hst⟩

end ThreadManager
end ThreadMessaging

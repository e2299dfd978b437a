import ThreadMessaging.ThreadManager
/-!
# The manager's stop source and the tokens of its tasks

`restartAllThreads` replaces `m_stopSource`; a task that runs then keeps a token of the old one, and no later
`stopAllThreads` reaches it.  Where none runs then, every running registered task's token is current.
-/
namespace ThreadMessaging
namespace ThreadManager

/-- **Every registered task that runs was started with a token of the current stop source.** -/
def Current (s : ThreadManager) : Prop :=
  ∀ t ∈ s.tasks, s.running t = true → (s.run t).token = some s.stopSource

/-- **The steps after which every running task's token is current**: `restartAllThreads` is called while no registered
task runs. -/
def restartsStopped (s : ThreadManager) : ManagerAct → Bool
  | .restartAllThreads => s.tasks.all (fun t => !s.running t)
  | _                  => true

structure CurrentInv (s : ThreadManager) : Prop where
  current : s.Current
  joining : ∀ rest clear, s.pc = .joining rest clear → s.requested s.stopSource = true ∧ ∀ t ∈ rest, t ∈ s.tasks

theorem Current.mono {s s' : ThreadManager} (h : s.Current) (hsrc : s'.stopSource = s.stopSource)
    (hmem : ∀ t ∈ s'.tasks, t ∈ s.tasks)
    (hrun : ∀ t, s'.running t = true → s.running t = true ∧ (s'.run t).token = (s.run t).token) : s'.Current := by
  intro t ht hr
  obtain ⟨hr', htok⟩ := hrun t hr
  rw [htok, hsrc]
  exact h t (hmem t ht) hr'

theorem Current.setRun {s : ThreadManager} (h : s.Current) {t : TaskId} {w : TaskRun}
    (hw : w.running = true → w.token = some s.stopSource ∨ (s.running t = true ∧ w.token = (s.run t).token)) :
    (s.setRun t w).Current := by
  intro u hu hr
  have hr : ((s.setRun t w).run u).running = true := hr
  show ((s.setRun t w).run u).token = some s.stopSource
  by_cases hut : u = t
  · rw [hut, run_setRun] at hr ⊢
    rcases hw hr with heq | ⟨hrun, htok⟩
    · exact heq
    · rw [htok]; exact h t (hut ▸ hu) hrun
  · rw [run_setRun_of_ne w hut] at hr ⊢
    exact h u hu hr

theorem Current.start {s : ThreadManager} (h : s.Current) (t : TaskId) (ok : Bool) : (s.startTask t ok).1.Current := by
  rcases s.startTask_cases t ok with ⟨-, -, -, heq⟩ | ⟨-, -, heq⟩
  · rw [heq]; exact h.setRun (fun _ => .inl rfl)
  · rw [heq]; exact h

theorem Current.addStep {s : ThreadManager} (h : s.Current) (t : TaskId) (ok : Bool) : (s.addStep t ok).Current := by
  unfold ThreadManager.addStep
  dsimp only
  rcases s.startTask_cases t ok with ⟨hok, -, -, heq⟩ | ⟨hok, -, heq⟩
  · rw [hok, if_pos rfl, heq]
    have hset := h.setRun (t := t) (w := { running := true, token := some s.stopSource }) (fun _ => .inl rfl)
    intro u hu hr
    rcases List.mem_append.1 hu with hu | hu
    · exact hset u hu hr
    · obtain rfl := List.mem_singleton.1 hu
      show ((s.setRun u _).run u).token = _
      rw [run_setRun]; rfl
  · rw [hok, heq]; exact h

theorem Current.restartStep {s : ThreadManager} (h : s.Current) (t : TaskId) (ok : Bool) :
    (s.restartStep t ok).Current := by
  unfold ThreadManager.restartStep
  split
  · exact h
  · exact h.start t ok

theorem CurrentInv.call {s s' : ThreadManager} {a : ManagerAct} (h : CurrentInv s) (hok : s.restartsStopped a = true)
    (hst : s.callStep a = some s') : CurrentInv s' := by
  obtain ⟨htasks, -⟩ := callStep_frame hst
  have hcur : s'.stopSource = s.stopSource → s'.Current := fun hsrc =>
    h.current.mono hsrc (fun t ht => by rw [← htasks]; exact ht)
      (fun t hr => ⟨by rw [← (callStep_run hst t).1]; exact hr, (callStep_run hst t).2⟩)
  unfold callStep at hst
  split at hst
  · cases hst; exact ⟨hcur rfl, nofun⟩
  · cases hst; exact h
  · cases hst; exact ⟨hcur rfl, nofun⟩
  · -- no registered task runs when the source is replaced
    cases hst
    refine ⟨fun t ht hr => ?_, nofun⟩
    have hno := List.all_eq_true.1 hok t ht
    have hr : s.running t = true := hr
    rw [hr] at hno; cases hno
  · cases hst
    exact ⟨hcur rfl, fun rest clear hpc => by cases hpc; exact ⟨Function.update_self .., fun _ ht => ht⟩⟩
  · cases hst
    exact ⟨hcur rfl, fun rest clear hpc => by cases hpc; exact ⟨Function.update_self .., fun _ ht => ht⟩⟩
  · split at hst
    · cases hst; exact ⟨hcur rfl, nofun⟩
    · cases hst; exact h
  · cases hst
    obtain ⟨buffer, sent, heq⟩ := s.sendObserverCommand_eq _
    rw [heq] at hcur ⊢
    exact ⟨hcur rfl, h.joining⟩
  · cases hst
    exact ⟨hcur rfl, fun rest clear hpc => ⟨Function.update_self .., (h.joining rest clear hpc).2⟩⟩
  · cases hst

theorem currentInv_step {s s' : ThreadManager} {a : ManagerAct} (h : CurrentInv s) (hok : s.restartsStopped a = true)
    (hst : s.step a = some s') : CurrentInv s' := by
  rcases step_cases hst with ⟨-, hcall⟩ | ⟨t, rest, ok, -, -, rfl⟩ | ⟨t, rest, ok, -, -, rfl⟩ |
    ⟨t, rest, clear, -, hpc, -, rfl⟩ | ⟨t, -, -, -, rfl⟩ | ⟨-, -, rfl⟩ | ⟨-, -, rfl⟩ | ⟨t, -, -, rfl⟩ | ⟨k, -, -, rfl⟩
  · exact h.call hok hcall
  · exact ⟨(h.current.addStep t ok).mono rfl (fun _ ht => ht) (fun _ hr => ⟨hr, rfl⟩), nofun⟩
  · exact ⟨(h.current.restartStep t ok).mono rfl (fun _ ht => ht) (fun _ hr => ⟨hr, rfl⟩), nofun⟩
  · refine ⟨h.current.mono rfl (fun _ ht => ht) (fun _ hr => ⟨hr, rfl⟩), fun rest' clear' hpc' => ?_⟩
    cases hpc'
    obtain ⟨hreq, hmem⟩ := h.joining _ _ hpc
    exact ⟨hreq, fun u hu => hmem u (List.mem_cons_of_mem _ hu)⟩
  · exact ⟨h.current.mono rfl (fun _ ht => (List.dropLast_sublist _).subset ht) (fun _ hr => ⟨hr, rfl⟩), nofun⟩
  · exact ⟨h.current.mono rfl (fun _ ht => ht) (fun _ hr => ⟨hr, rfl⟩), nofun⟩
  · exact ⟨fun t ht => (by cases ht), nofun⟩
  · exact ⟨h.current.setRun nofun, h.joining⟩
  · exact ⟨h.current.mono rfl (fun _ ht => ht) (fun _ hr => ⟨hr, rfl⟩), h.joining⟩

/-- **No join waits for a task that was never told to stop.** -/
def JoinsTold (s : ThreadManager) : Prop :=
  ∀ t rest clear, s.pc = .joining (t :: rest) clear → s.running t = true →
    ∃ k, (s.run t).token = some k ∧ s.requested k = true

/-- **Where `restartAllThreads` finds no registered task running, every running one holds a token of the current stop
source**, and a task that `stopAllThreads` joins has been told to stop. -/
theorem running_current {s : ThreadManager} (hs : (machine.only restartsStopped).Reachable s) :
    s.Current ∧ s.JoinsTold := by
  have hinv : CurrentInv s :=
    hs.only_invariant ⟨fun t ht => (by cases ht), nofun⟩ (fun s _ _ hI hok hst => currentInv_step (s := s) hI hok hst)
  refine ⟨hinv.current, fun t rest clear hpc hrun => ?_⟩
  obtain ⟨hreq, hmem⟩ := hinv.joining _ _ hpc
  exact ⟨s.stopSource, hinv.current t (hmem t (List.mem_cons_self ..)) hrun, hreq⟩

/-- A chain that is stopped, restarted and stopped again; the second stop joins a task it has told to stop. -/
theorem running_current_restarted : ∃ s : ThreadManager, s.stopSource = 1 ∧
    s.running (.chain 0 .observerIncoming) = true ∧
    (s.run (.chain 0 .observerIncoming)).token = some 1 ∧ s.requested 1 = true := by
  obtain ⟨s, hrun⟩ : ∃ s, (machine.only restartsStopped).runFrom (machine.only restartsStopped).init
      [.initTestChain, .start true, .start false, .start true, .start false, .start false, .done, .stopAllThreads,
       .finish (.chain 0 .observerIncoming), .join, .finish (.chain 0 .processing), .join, .done, .restartAllThreads,
       .start true, .start true, .done, .stopAllThreads] = some s := ⟨_, rfl⟩
  have hsrc : s.stopSource = 1 := by cases hrun; rfl
  have hpc : s.pc = .joining [.chain 0 .observerIncoming, .chain 0 .processing] false := by cases hrun; rfl
  have hr : s.running (.chain 0 .observerIncoming) = true := by cases hrun; rfl
  obtain ⟨-, htold⟩ := running_current (Machine.reachable_of_run _ hrun)
  obtain ⟨k, htok, hreq⟩ := htold _ _ _ hpc hr
  have hk : k = 1 := by
    have : (s.run (.chain 0 .observerIncoming)).token = some 1 := by cases hrun; rfl
    rw [htok] at this
    exact Option.some.inj this
  rw [hk] at htok hreq
  exact ⟨s, hsrc, hr, htok, hreq⟩

/-- **A running task can be cut off from the stop source**: `restartAllThreads` while the chain runs; the stop that
follows joins a task it has not told to stop. -/
theorem exists_cutOff : ¬ ∀ s, machine.Reachable s → s.Current ∧ s.JoinsTold := by
  intro hall
  obtain ⟨s, hrun⟩ : ∃ s, machine.runFrom machine.init
      [.initTestChain, .start true, .start true, .start true, .start true, .start true, .done, .restartAllThreads,
       .start true, .start true, .start true, .start true, .start true, .done, .stopAllThreads] = some s := ⟨_, rfl⟩
  have hpc : ∃ rest, s.pc = .joining (.chain 0 .observerIncoming :: rest) false := by cases hrun; exact ⟨_, rfl⟩
  have hr : s.running (.chain 0 .observerIncoming) = true := by cases hrun; rfl
  have htok : (s.run (.chain 0 .observerIncoming)).token = some 0 := by cases hrun; rfl
  have hreq : s.requested 0 = false := by cases hrun; rfl
  obtain ⟨rest, hpc⟩ := hpc
  obtain ⟨-, htold⟩ := hall s (Machine.reachable_of_run _ hrun)
  obtain ⟨k, htok', hreq'⟩ := htold _ _ _ hpc hr
  rw [htok] at htok'
  obtain rfl := Option.some.inj htok'
  rw [hreq] at hreq'
  cases hreq'

end ThreadManager
end ThreadMessaging

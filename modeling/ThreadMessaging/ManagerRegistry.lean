import Mathlib.Data.Finset.Card
import ThreadMessaging.ManagerObserver
/-!
# The registry and its duplicates

`addTask` registers a task whenever its `start` succeeds, and a `start` succeeds whenever the task is not running: a
task that is registered already, and has finished since or been stopped, is registered once more.  The tasks of an
`initTestChain` are new, and no other operation registers any, so this is the one way to a duplicate (`registry_nodup`).
-/
namespace ThreadMessaging
namespace ThreadManager

def getThreadCount (s : ThreadManager) : Nat := s.tasks.length

/-- The step does not start a task given to `addTask` that is registered already. -/
def addsNew (s : ThreadManager) : ManagerAct → Bool
  | .start ok =>
    match s.pc with
    | .adding (.user i :: _) => !(s.tasks.contains (.user i) && ok && !s.running (.user i))
    | _                      => true
  | _         => true

/-- **How a step changes the registry**: not at all, by a task that `addTask` has started, by the end of
`stopLastThread` or of `terminateAllThreads`. -/
theorem tasks_step {s s' : ThreadManager} {a : ManagerAct} (hst : s.step a = some s') :
    (s'.tasks = s.tasks ∧ s.addsNew a = true) ∨
    (∃ t rest ok, a = .start ok ∧ s.pc = .adding (t :: rest) ∧ ok = true ∧ s.running t = false ∧
      s'.tasks = s.tasks ++ [t]) ∨
    (∃ t, a = .join ∧ s.pc = .stoppingLast t ∧ s'.tasks = s.tasks.dropLast) ∨
    (a = .done ∧ s'.tasks = []) := by
  rcases step_cases hst with ⟨-, hcall⟩ | ⟨t, rest, ok, rfl, hpc, rfl⟩ | ⟨t, rest, ok, rfl, hpc, rfl⟩ |
    ⟨t, rest, clear, rfl, hpc, -, rfl⟩ | ⟨t, rfl, hpc, -, rfl⟩ | ⟨rfl, -, rfl⟩ | ⟨rfl, -, rfl⟩ | ⟨t, rfl, -, rfl⟩ |
    ⟨k, rfl, -, rfl⟩
  · refine .inl ⟨(callStep_frame hcall).1, ?_⟩
    have hop := isCall_of_callStep hcall
    cases a <;> first | rfl | cases hop
  · have htasks := (s.addStep_registry t ok).1
    rcases s.startTask_cases t ok with ⟨hstart, hrun, hok, -⟩ | ⟨hstart, hno, -⟩
    · rw [if_pos hstart] at htasks
      exact .inr (.inl ⟨t, rest, ok, rfl, hpc, hok, hrun, htasks⟩)
    · rw [hstart, if_neg Bool.false_ne_true] at htasks
      refine .inl ⟨htasks, ?_⟩
      cases t with
      | chain k t => simp only [addsNew, hpc]
      | user i =>
        simp only [addsNew, hpc]
        rw [Bool.and_assoc, hno, Bool.and_false]; rfl
  · refine .inl ⟨(s.restartStep_registry t ok).1, ?_⟩
    simp only [addsNew, hpc]
  · exact .inl ⟨rfl, rfl⟩
  · exact .inr (.inr (.inl ⟨t, rfl, hpc, rfl⟩))
  · exact .inl ⟨rfl, rfl⟩
  · exact .inr (.inr (.inr ⟨rfl, rfl⟩))
  · exact .inl ⟨rfl, rfl⟩
  · exact .inl ⟨rfl, rfl⟩

theorem nodup_step {s s' : ThreadManager} {a : ManagerAct} (hs : machine.Reachable s) (h : s.tasks.Nodup)
    (hst : s.step a = some s') : s'.tasks.Nodup ↔ s.addsNew a = true := by
  rcases tasks_step hst with ⟨htasks, hnew⟩ | ⟨t, rest, ok, rfl, hpc, rfl, hrun, htasks⟩ | ⟨t, rfl, -, htasks⟩ |
    ⟨rfl, htasks⟩
  · rw [htasks]
    exact iff_of_true h hnew
  · rw [htasks, List.nodup_append_comm, List.singleton_append, List.nodup_cons]
    cases t with
    | chain k t =>
      have hnew : TaskId.chain k t ∉ s.tasks := (reachable_registryInv hs).not_mem_tasks rfl
        (by rw [pending_adding hpc]; exact List.mem_cons_self ..)
      simp [addsNew, hpc, h, hnew]
    | user i => simp [addsNew, hpc, hrun, h]
  · rw [htasks]
    exact iff_of_true (h.sublist (List.dropLast_sublist _)) rfl
  · rw [htasks]
    exact iff_of_true List.nodup_nil rfl

/-- **The task that `stopLastThread` stops is the last one**, until it is removed. -/
def StopsLast (s : ThreadManager) : Prop := ∀ t, s.pc = .stoppingLast t → s.tasks.getLast? = some t

theorem StopsLast.call {s s' : ThreadManager} {a : ManagerAct} (hidle : s.pc = .idle) (hst : s.callStep a = some s') :
    s'.StopsLast := by
  intro t ht
  rw [(callStep_frame hst).1]
  unfold callStep at hst
  split at hst
  case h_7 =>
    split at hst
    · rename_i last hlast
      cases hst
      injection ht with ht
      rw [hlast, ← ht]
    · cases hst
      rw [hidle] at ht; cases ht
  case h_8 =>
    cases hst
    obtain ⟨buffer, sent, heq⟩ := s.sendObserverCommand_eq _
    rw [heq] at ht
    have ht : s.pc = .stoppingLast t := ht
    rw [hidle] at ht; cases ht
  case h_10 => cases hst
  all_goals
    cases hst
    first | cases ht | (rw [hidle] at ht; cases ht)

theorem stopsLast_step {s s' : ThreadManager} {a : ManagerAct} (h : s.StopsLast) (hst : s.step a = some s') :
    s'.StopsLast := by
  rcases step_cases hst with ⟨hidle, hcall⟩ | ⟨t, rest, ok, -, -, rfl⟩ | ⟨t, rest, ok, -, -, rfl⟩ |
    ⟨t, rest, clear, -, -, -, rfl⟩ | ⟨t, -, -, -, rfl⟩ | ⟨-, -, rfl⟩ | ⟨-, -, rfl⟩ | ⟨t, -, -, rfl⟩ | ⟨k, -, -, rfl⟩
  · exact StopsLast.call hidle hcall
  · exact fun u hu => by cases hu
  · exact fun u hu => by cases hu
  · exact fun u hu => by cases hu
  · exact fun u hu => by cases hu
  · exact fun u hu => by cases hu
  · exact fun u hu => by cases hu
  · exact h
  · exact h

theorem reachable_stopsLast {s : ThreadManager} (hs : machine.Reachable s) : s.StopsLast :=
  hs.invariant (fun t ht => by cases ht) (fun s _ _ hI hst => stopsLast_step (s := s) hI hst)

theorem reachable_nodup {s : ThreadManager} (hs : (machine.only addsNew).Reachable s) : s.tasks.Nodup := by
  induction hs with
  | init => exact List.nodup_nil
  | step a hr hst ih =>
    obtain ⟨hok, hst⟩ := Machine.only_step.1 hst
    exact (nodup_step hr.of_only ih hst).2 hok

/-- **No task is registered twice** in any run in which `addTask` starts no task that is registered already: the count
is that of the tasks, and the task that `stopLastThread` stops is in the registry no more.  The first step that starts
one registers it a second time. -/
theorem registry_nodup {s : ThreadManager} (hs : (machine.only addsNew).Reachable s) :
    s.tasks.Nodup ∧ s.getThreadCount = s.tasks.toFinset.card ∧
    (∀ t s', s.pc = .stoppingLast t → s.step .join = some s' → t ∉ s'.tasks) ∧
    ∀ a s', s.step a = some s' → (s'.tasks.Nodup ↔ s.addsNew a = true) := by
  have hnodup := reachable_nodup hs
  refine ⟨hnodup, (List.toFinset_card_of_nodup hnodup).symm, fun t s' hpc hst hmem => ?_,
    fun a s' => nodup_step hs.of_only hnodup⟩
  have hlast := reachable_stopsLast hs.of_only t hpc
  simp only [step, hpc] at hst
  split at hst
  · cases hst
  · cases hst
    rw [← List.dropLast_append_getLast? t hlast] at hnodup
    exact List.disjoint_of_nodup_append hnodup hmem (List.mem_singleton_self t)

/-- A task that has finished, been removed and added again is registered once. -/
theorem registry_nodup_readded : ∃ s : ThreadManager, s.running (.user 7) = true ∧ s.getThreadCount = 2 ∧
    s.tasks.toFinset.card = 2 := by
  obtain ⟨s, hrun⟩ : ∃ s, (machine.only addsNew).runFrom (machine.only addsNew).init
      [.addTask (some 3), .start true, .done, .addTask (some 7), .start true, .done, .addTask (some 7), .start true,
       .done, .finish (.user 7), .stopLastThread, .join, .addTask (some 7), .start true, .done] = some s := ⟨_, rfl⟩
  have hr : s.running (.user 7) = true := by cases hrun; rfl
  have hcount : s.getThreadCount = 2 := by cases hrun; rfl
  obtain ⟨-, hcard, -⟩ := registry_nodup (Machine.reachable_of_run _ hrun)
  exact ⟨s, hr, hcount, hcard.symm.trans hcount⟩

/-- **A task can be registered twice**: added once more after it has finished. -/
theorem exists_duplicate : ¬ ∀ s, machine.Reachable s → s.tasks.Nodup := by
  intro hall
  obtain ⟨s, hrun⟩ : ∃ s, machine.runFrom machine.init
      [.addTask (some 7), .start true, .done, .finish (.user 7), .addTask (some 7), .start true] = some s := ⟨_, rfl⟩
  have htasks : s.tasks = [.user 7, .user 7] := by cases hrun; rfl
  have := hall s (Machine.reachable_of_run _ hrun)
  rw [htasks] at this
  exact absurd this (by decide)

end ThreadManager
end ThreadMessaging

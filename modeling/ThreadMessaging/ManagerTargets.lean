import ThreadMessaging.ThreadManager
/-!
# The receivers of the Senders

A Sender points into its receiver's queue and does not own it; the manager owns a receiver as long as it is registered.
-/
namespace ThreadMessaging
namespace ThreadManager

/-- **The receiver of every Sender that a running registered chain task holds is registered.** -/
def TargetsRegistered (s : ThreadManager) : Prop :=
  ∀ t ∈ s.tasks, s.running t = true → ∀ r ∈ t.targets, r ∈ s.tasks

/-- The tasks an `addTask` in progress has yet to add. -/
def pending (s : ThreadManager) : List TaskId :=
  match s.pc with
  | .adding rest => rest
  | _            => []

/-- **The steps after which no Sender outlives its receiver**: a chain task is added with its targets registered, or
added after it, and not left out where a running one holds a Sender to it; one is restarted with its targets
registered; and `stopLastThread` removes none that a running one holds a Sender to. -/
def keepsTargets (s : ThreadManager) : ManagerAct → Bool
  | .start ok =>
    match s.pc with
    | .adding (t :: rest)    =>
      if ok && !s.running t then decide (∀ r ∈ t.targets, r ∈ s.tasks ++ t :: rest)
      else decide (∀ u ∈ s.tasks, s.running u = true → t ∉ u.targets)
    | .restarting (t :: _)   => !ok || decide (∀ r ∈ t.targets, r ∈ s.tasks)
    | _                      => true
  | .join =>
    match s.pc with
    | .stoppingLast _ => decide (∀ u ∈ s.tasks.dropLast, s.running u = true → ∀ r ∈ s.tasks.getLast?, r ∉ u.targets)
    | _               => true
  | _ => true

/-- **The invariant of these runs**: a target is registered, or about to be. -/
def TargetsInv (s : ThreadManager) : Prop :=
  ∀ t ∈ s.tasks, s.running t = true → ∀ r ∈ t.targets, r ∈ s.tasks ++ s.pending

theorem TargetsInv.mono {s s' : ThreadManager} (h : TargetsInv s) (htasks : s'.tasks = s.tasks)
    (hrun : ∀ t, s'.running t = true → s.running t = true) (hpend : ∀ r ∈ s.pending, r ∈ s'.tasks ++ s'.pending) :
    TargetsInv s' := by
  intro t ht hr r hrt
  rw [htasks] at ht
  rcases List.mem_append.1 (h t ht (hrun t hr) r hrt) with hm | hm
  · rw [htasks]; exact List.mem_append_left _ hm
  · exact hpend r hm

theorem pending_of {s : ThreadManager} (h : ∀ rest, s.pc ≠ .adding rest) : s.pending = [] := by
  unfold pending
  split
  · rename_i rest hpc; exact absurd hpc (h rest)
  · rfl

theorem TargetsInv.setRun {s : ThreadManager} (h : TargetsInv s) {t : TaskId} {w : TaskRun}
    (hw : w.running = true → s.running t = true ∨ ∀ r ∈ t.targets, r ∈ s.tasks ++ s.pending) :
    TargetsInv (s.setRun t w) := by
  intro u hu hr r hrt
  have hr : ((s.setRun t w).run u).running = true := hr
  by_cases hut : u = t
  · rw [hut, run_setRun] at hr
    rcases hw hr with hrun | hall
    · exact h u hu (hut ▸ hrun) r hrt
    · exact hall r (hut ▸ hrt)
  · rw [run_setRun_of_ne w hut] at hr
    exact h u hu hr r hrt

theorem TargetsInv.call {s s' : ThreadManager} {a : ManagerAct} (h : TargetsInv s) (hidle : s.pc = .idle)
    (hst : s.callStep a = some s') : TargetsInv s' := by
  have hpend : s.pending = [] := pending_of (by rw [hidle]; exact nofun)
  refine h.mono (callStep_frame hst).1 (fun t hr => ?_) (by rw [hpend]; exact nofun)
  rw [← (callStep_run hst t).1]
  exact hr

theorem TargetsInv.addStep {s : ThreadManager} (h : TargetsInv s) {t : TaskId} {rest : List TaskId} {ok : Bool}
    (hpc : s.pc = .adding (t :: rest)) (hok : s.keepsTargets (.start ok) = true) :
    TargetsInv { s.addStep t ok with pc := .adding rest } := by
  have hpend : s.pending = t :: rest := by unfold pending; rw [hpc]
  simp only [keepsTargets, hpc] at hok
  unfold ThreadManager.addStep
  dsimp only
  rcases s.startTask_cases t ok with ⟨hstart, hrun, rfl, heq⟩ | ⟨hstart, hno, heq⟩
  · rw [hstart, if_pos rfl, heq]
    simp only [hrun, Bool.not_false, Bool.and_self, if_true, decide_eq_true_eq] at hok
    have hall : ∀ {r}, r ∈ s.tasks ++ t :: rest → r ∈ (s.tasks ++ [t]) ++ rest := by
      intro r hr
      rw [List.append_assoc]; exact hr
    intro u hu hr r hrt
    have hr : ((s.setRun t _).run u).running = true := hr
    by_cases hut : u = t
    · exact hall (hok r (hut ▸ hrt))
    · rw [run_setRun_of_ne _ hut] at hr
      rcases List.mem_append.1 hu with hu | hu
      · have := h u hu hr r hrt
        rw [hpend] at this
        exact hall this
      · exact absurd (List.mem_singleton.1 hu) hut
  · rw [hstart, heq]
    simp only [hno, Bool.false_eq_true, if_false, decide_eq_true_eq] at hok
    intro u hu hr r hrt
    have hm := h u hu hr r hrt
    rw [hpend] at hm
    rcases List.mem_append.1 hm with hm | hm
    · exact List.mem_append_left _ hm
    · rcases List.mem_cons.1 hm with rfl | hm
      · exact absurd hrt (hok u hu hr)
      · exact List.mem_append_right _ hm

theorem TargetsInv.restartStep {s : ThreadManager} (h : TargetsInv s) {t : TaskId} {rest : List TaskId} {ok : Bool}
    (hpc : s.pc = .restarting (t :: rest)) (hok : s.keepsTargets (.start ok) = true) :
    TargetsInv { s.restartStep t ok with pc := .restarting rest } := by
  have hpend : s.pending = [] := pending_of (by rw [hpc]; exact nofun)
  simp only [keepsTargets, hpc, Bool.or_eq_true, Bool.not_eq_true', decide_eq_true_eq] at hok
  have hgo : ∀ {s' : ThreadManager}, TargetsInv s' → s'.pending = [] →
      TargetsInv { s' with pc := .restarting rest } :=
    fun h' hp => h'.mono rfl (fun _ hr => hr) (by rw [hp]; exact nofun)
  unfold ThreadManager.restartStep
  split
  · exact hgo h hpend
  · rcases s.startTask_cases t ok with ⟨-, -, rfl, heq⟩ | ⟨-, -, heq⟩
    · rw [heq]
      refine hgo (h.setRun (fun _ => .inr (fun r hr => List.mem_append_left _ ?_))) hpend
      exact (hok.resolve_left nofun) r hr
    · rw [heq]; exact hgo h hpend

theorem TargetsInv.dropLast {s : ThreadManager} (h : TargetsInv s) {t : TaskId} (hpc : s.pc = .stoppingLast t)
    (hok : s.keepsTargets .join = true) : TargetsInv { s with tasks := s.tasks.dropLast, pc := .idle } := by
  have hpend : s.pending = [] := pending_of (by rw [hpc]; exact nofun)
  simp only [keepsTargets, hpc, decide_eq_true_eq] at hok
  intro u hu hr r hrt
  have hm := h u ((List.dropLast_sublist _).subset hu) hr r hrt
  rw [hpend, List.append_nil] at hm
  refine List.mem_append_left _ ?_
  rcases List.eq_nil_or_concat s.tasks with hnil | ⟨front, last, hlast⟩
  · rw [hnil] at hm; cases hm
  · have hl : s.tasks.getLast? = some last := by rw [hlast]; simp
    have hd : s.tasks.dropLast = front := by rw [hlast]; simp
    rw [hlast, List.concat_eq_append, List.mem_append, List.mem_singleton] at hm
    rcases hm with hm | rfl
    · show r ∈ s.tasks.dropLast
      rw [hd]; exact hm
    · exact absurd hrt (hok u hu hr r hl)

theorem targetsInv_step {s s' : ThreadManager} {a : ManagerAct} (h : TargetsInv s) (hok : s.keepsTargets a = true)
    (hst : s.step a = some s') : TargetsInv s' := by
  rcases step_cases hst with ⟨hidle, hcall⟩ | ⟨t, rest, ok, rfl, hpc, rfl⟩ | ⟨t, rest, ok, rfl, hpc, rfl⟩ |
    ⟨t, rest, clear, -, hpc, -, rfl⟩ | ⟨t, rfl, hpc, -, rfl⟩ | ⟨-, hpc, rfl⟩ | ⟨-, -, rfl⟩ | ⟨t, -, -, rfl⟩ |
    ⟨k, -, -, rfl⟩
  · exact h.call hidle hcall
  · exact h.addStep hpc hok
  · exact h.restartStep hpc hok
  · exact h.mono rfl (fun _ hr => hr) (by rw [pending_of (by rw [hpc]; exact nofun)]; exact nofun)
  · exact h.dropLast hpc hok
  · refine h.mono rfl (fun _ hr => hr) ?_
    have : s.pending = [] := by
      rcases hpc with hpc | hpc | hpc <;> (unfold pending; rw [hpc])
    rw [this]; exact nofun
  · exact fun t ht => by cases ht
  · exact h.setRun nofun
  · exact h

/-- **Where no start leaves a Sender without its receiver and `stopLastThread` removes no receiver of a running task,
the receiver of every Sender that a running registered chain task holds is registered**, after every operation. -/
theorem targets_registered {s : ThreadManager} (hs : (machine.only keepsTargets).Reachable s) (hidle : s.pc = .idle) :
    s.TargetsRegistered := by
  have hinv : TargetsInv s :=
    hs.only_invariant (fun t ht => by cases ht) (fun s _ _ hI hok hst => targetsInv_step (s := s) hI hok hst)
  intro t ht hr r hrt
  have := hinv t ht hr r hrt
  rw [pending_of (by rw [hidle]; exact nofun), List.append_nil] at this
  exact this

/-- A chain whose observer and application observer could not be started: the processing task's receiver is there. -/
theorem targets_registered_partial : ∃ s : ThreadManager, s.running (.chain 0 .processing) = true ∧
    TaskId.chain 0 .transformation ∈ s.tasks := by
  obtain ⟨s, hrun⟩ : ∃ s, (machine.only keepsTargets).runFrom (machine.only keepsTargets).init
      [.initTestChain, .start false, .start false, .start true, .start true, .start true, .done, .addTask (some 7),
       .start true, .done, .stopLastThread, .finish (.user 7), .join] = some s := ⟨_, rfl⟩
  have hidle : s.pc = .idle := by cases hrun; rfl
  have hr : s.running (.chain 0 .processing) = true := by cases hrun; rfl
  have hm : TaskId.chain 0 .processing ∈ s.tasks := by cases hrun; decide
  exact ⟨s, hr, targets_registered (Machine.reachable_of_run _ hrun) hidle _ hm hr _ (by decide)⟩

/-- **A Sender can outlive its receiver**: `stopLastThread` on a running chain removes the result task; the
transformation task runs on with a Sender to its queue. -/
theorem exists_dangling : ¬ ∀ s, machine.Reachable s → s.pc = .idle → s.TargetsRegistered := by
  intro hall
  obtain ⟨s, hrun⟩ : ∃ s, machine.runFrom machine.init
      [.initTestChain, .start true, .start true, .start true, .start true, .start true, .done, .stopLastThread,
       .finish (.chain 0 .result), .join] = some s := ⟨_, rfl⟩
  have hidle : s.pc = .idle := by cases hrun; rfl
  have hr : s.running (.chain 0 .transformation) = true := by cases hrun; rfl
  have hm : TaskId.chain 0 .transformation ∈ s.tasks := by cases hrun; decide
  have hnm : TaskId.chain 0 .result ∉ s.tasks := by cases hrun; decide
  exact hnm (hall s (Machine.reachable_of_run _ hrun) hidle _ hm hr _ (by decide))

end ThreadManager
end ThreadMessaging

import ThreadMessaging.ThreadManager
/-!
# What a newly added task is told

`addTask` and `initTestChain` start a task with a token of `m_stopSource`, whatever became of that source: only
`restartAllThreads` replaces it.  So a task added after a `stopAllThreads`, a `terminateAllThreads` or a
`stopSource().request_stop()` with no restart since is told to stop before it has begun; one added otherwise is told by
a later stop operation only (`added_fresh`).
-/
namespace ThreadMessaging
namespace ThreadManager

/-- A stop has been requested on the token of a task's newest thread. -/
def told (s : ThreadManager) (t : TaskId) : Bool :=
  (s.run t).stopped || (s.run t).token.any s.requested

def isStop : ManagerAct → Bool
  | .stopAllThreads      => true
  | .terminateAllThreads => true
  | .stopLastThread      => true
  | .requestStop         => true
  | _                    => false

/-- Whether a global stop has been called since the last `restartAllThreads`. -/
def stopPending (h : Bool) (_ : ThreadManager) (a : ManagerAct) (_ : ThreadManager) : Bool :=
  match a with
  | .stopAllThreads      => true
  | .terminateAllThreads => true
  | .requestStop         => true
  | .restartAllThreads   => false
  | _                    => h

theorem startTask_source (s : ThreadManager) (t : TaskId) (ok : Bool) :
    (s.startTask t ok).1.stopSource = s.stopSource ∧ (s.startTask t ok).1.requested = s.requested := ⟨rfl, rfl⟩

theorem addStep_source (s : ThreadManager) (t : TaskId) (ok : Bool) :
    (s.addStep t ok).stopSource = s.stopSource ∧ (s.addStep t ok).requested = s.requested := by
  unfold addStep
  dsimp only
  split <;> exact s.startTask_source t ok

theorem restartStep_source (s : ThreadManager) (t : TaskId) (ok : Bool) :
    (s.restartStep t ok).stopSource = s.stopSource ∧ (s.restartStep t ok).requested = s.requested := by
  unfold restartStep
  split
  · exact ⟨rfl, rfl⟩
  · exact s.startTask_source t ok

theorem stopPending_of_not_call {h : Bool} {s s' : ThreadManager} {a : ManagerAct} (ha : isCall a = false) :
    stopPending h s a s' = h := by
  cases a <;> first | rfl | cases ha

/-- **Only the operations touch the stop source.** -/
theorem source_frame {s s' : ThreadManager} {a : ManagerAct} (ha : isCall a = false) (hst : s.step a = some s') :
    s'.stopSource = s.stopSource ∧ s'.requested = s.requested := by
  rcases step_cases hst with ⟨-, hcall⟩ | ⟨t, rest, ok, -, -, rfl⟩ | ⟨t, rest, ok, -, -, rfl⟩ |
    ⟨t, rest, clear, -, -, -, rfl⟩ | ⟨t, -, -, -, rfl⟩ | ⟨-, -, rfl⟩ | ⟨-, -, rfl⟩ | ⟨t, -, -, rfl⟩ | ⟨k, -, -, rfl⟩
  · rw [isCall_of_callStep hcall] at ha; cases ha
  · exact s.addStep_source t ok
  · exact s.restartStep_source t ok
  · exact ⟨rfl, rfl⟩
  · exact ⟨rfl, rfl⟩
  · exact ⟨rfl, rfl⟩
  · exact ⟨rfl, rfl⟩
  · exact ⟨rfl, rfl⟩
  · exact ⟨rfl, rfl⟩

/-- **The current stop source is requested exactly while a global stop is pending.** -/
theorem requested_step {s s' : ThreadManager} {a : ManagerAct} {h : Bool} (hI : s.requested s.stopSource = h)
    (hst : s.step a = some s') : s'.requested s'.stopSource = stopPending h s a s' := by
  by_cases ha : isCall a = true
  · obtain ⟨-, hcall⟩ := callStep_of_isCall ha hst
    unfold callStep at hcall
    split at hcall
    · cases hcall; exact hI
    · cases hcall; exact hI
    · cases hcall; exact hI
    · cases hcall; exact Function.update_self ..
    · cases hcall; exact Function.update_self ..
    · cases hcall; exact Function.update_self ..
    · split at hcall
      · cases hcall; exact hI
      · cases hcall; exact hI
    · cases hcall
      obtain ⟨buffer, sent, heq⟩ := s.sendObserverCommand_eq _
      rw [heq]; exact hI
    · cases hcall; exact Function.update_self ..
    · cases hcall
  · have ha : isCall a = false := by simpa using ha
    obtain ⟨hsrc, hreq⟩ := source_frame ha hst
    rw [hsrc, hreq, stopPending_of_not_call ha]; exact hI

theorem reachable_requested {s : ThreadManager} {h : Bool}
    (hs : (machine.withHistory false stopPending).Reachable (s, h)) : s.requested s.stopSource = h :=
  hs.history_invariant (J := fun _ => True) (I := fun s h => s.requested s.stopSource = h) (fun _ _ => trivial) rfl
    (fun s _ _ _ _ hI hst => requested_step (s := s) hI hst)

/-! ## While nothing is stopped -/

/-- The task has not been told to stop, and would not be if it were started now. -/
def Untold (s : ThreadManager) (t : TaskId) : Prop := s.told t = false ∧ s.requested s.stopSource = false

theorem told_eq_false {s : ThreadManager} {t : TaskId} :
    s.told t = false ↔ (s.run t).stopped = false ∧ ∀ k, (s.run t).token = some k → s.requested k = false := by
  unfold told
  rw [Bool.or_eq_false_iff]
  cases (s.run t).token with
  | none => simp
  | some k => simp

theorem Untold.setRun {s : ThreadManager} {t : TaskId} (h : s.Untold t) {u : TaskId} {w : TaskRun}
    (hw : w.stopped = (s.run u).stopped ∧ w.token = (s.run u).token ∨
      w.stopped = false ∧ w.token = some s.stopSource) : (s.setRun u w).Untold t := by
  refine ⟨told_eq_false.2 ?_, h.2⟩
  by_cases htu : t = u
  · rw [htu, run_setRun]
    rcases hw with ⟨hst, htok⟩ | ⟨hst, htok⟩
    · rw [hst, htok]
      exact htu ▸ told_eq_false.1 h.1
    · rw [hst, htok]
      exact ⟨rfl, fun k hk => by obtain rfl := Option.some.inj hk; exact h.2⟩
  · rw [run_setRun_of_ne w htu]
    exact told_eq_false.1 h.1

theorem Untold.start {s : ThreadManager} {t : TaskId} (h : s.Untold t) (u : TaskId) (ok : Bool) :
    (s.startTask u ok).1.Untold t := by
  rcases s.startTask_cases u ok with ⟨-, -, -, heq⟩ | ⟨-, -, heq⟩
  · rw [heq]; exact h.setRun (.inr ⟨rfl, rfl⟩)
  · rw [heq]; exact h

theorem Untold.call {s s' : ThreadManager} {t : TaskId} {a : ManagerAct} (h : s.Untold t) (ha : isStop a = false)
    (hst : s.callStep a = some s') : s'.Untold t := by
  unfold callStep at hst
  split at hst
  · cases hst; exact h
  · cases hst; exact h
  · cases hst; exact h
  · -- the new source is requested nowhere
    cases hst
    obtain ⟨hstop, htok⟩ := told_eq_false.1 h.1
    refine ⟨told_eq_false.2 ⟨hstop, fun k hk => ?_⟩, Function.update_self ..⟩
    show Function.update s.requested (s.stopSource + 1) false k = false
    by_cases hks : k = s.stopSource + 1
    · rw [hks, Function.update_self]
    · rw [Function.update_of_ne hks]; exact htok k hk
  · cases ha
  · cases ha
  · cases ha
  · cases hst
    obtain ⟨buffer, sent, heq⟩ := s.sendObserverCommand_eq _
    rw [heq]; exact h
  · cases ha
  · cases hst

theorem untold_step {s s' : ThreadManager} {t : TaskId} {a : ManagerAct} (h : s.Untold t) (ha : isStop a = false)
    (hst : s.step a = some s') : s'.Untold t := by
  rcases step_cases hst with ⟨-, hcall⟩ | ⟨u, rest, ok, -, -, rfl⟩ | ⟨u, rest, ok, -, -, rfl⟩ |
    ⟨u, rest, clear, -, -, -, rfl⟩ | ⟨u, -, -, -, rfl⟩ | ⟨-, -, rfl⟩ | ⟨-, -, rfl⟩ | ⟨u, -, -, rfl⟩ | ⟨k, -, -, rfl⟩
  · exact h.call ha hcall
  · show (s.addStep u ok).Untold t
    unfold addStep
    dsimp only
    split
    · exact h.start u ok
    · exact h.start u ok
  · show (s.restartStep u ok).Untold t
    unfold restartStep
    split
    · exact h
    · exact h.start u ok
  · exact h
  · exact h
  · exact h
  · exact h
  · exact h.setRun (.inl ⟨rfl, rfl⟩)
  · exact h

/-- **What has not been told to stop is told by a stop operation only.** -/
theorem Untold.runFrom {t : TaskId} : ∀ {s s' : ThreadManager} (as : List ManagerAct), s.Untold t →
    (∀ a ∈ as, isStop a = false) → machine.runFrom s as = some s' → s'.Untold t
  | s, s', [], h, _, hrun => by
    obtain rfl : s = s' := by simpa [Machine.runFrom] using hrun
    exact h
  | s, s', a :: as, h, hall, hrun => by
    rw [Machine.runFrom_cons, Option.bind_eq_some_iff] at hrun
    obtain ⟨u, hu, hrest⟩ := hrun
    have hu' : u.Untold t := untold_step h (hall a (List.mem_cons_self ..)) hu
    exact hu'.runFrom as (fun b hb => hall b (List.mem_cons_of_mem _ hb)) hrest

/-- **A task that `addTask` or `initTestChain` newly starts is told to stop by a later stop operation only, exactly if
no global stop has been called since the last `restartAllThreads`**, in every run. -/
theorem added_fresh {s s' : ThreadManager} {h : Bool} (hs : (machine.withHistory false stopPending).Reachable (s, h))
    {t : TaskId} {rest : List TaskId} (hpc : s.pc = .adding (t :: rest)) (hnew : s.running t = false)
    (hst : s.step (.start true) = some s') :
    (t ∈ s'.tasks ∧ s'.running t = true) ∧
    ((∀ as u, machine.runFrom s' as = some u → (∀ a ∈ as, isStop a = false) → u.told t = false) ↔ h = false) := by
  have hreq := reachable_requested hs
  have heq : s' = { s.addStep t true with pc := .adding rest } := by
    simp only [step, hpc] at hst
    exact (Option.some.inj hst).symm
  have hadd : s.addStep t true = { s.setRun t { running := true, token := some s.stopSource } with
      tasks := s.tasks ++ [t] } := by
    rcases s.startTask_cases t true with ⟨hok, -, -, hstart⟩ | ⟨-, hno, -⟩
    · unfold addStep
      dsimp only
      rw [hok, if_pos rfl, hstart]; rfl
    · rw [hnew] at hno; cases hno
  rw [hadd] at heq
  subst heq
  have hrun : (s.setRun t { running := true, token := some s.stopSource }).run t =
    { running := true, token := some s.stopSource } := run_setRun ..
  have htold : (s.setRun t { running := true, token := some s.stopSource }).told t = s.requested s.stopSource := by
    unfold told
    rw [hrun]; rfl
  refine ⟨⟨List.mem_append_right _ (List.mem_singleton_self t), ?_⟩, fun hall => ?_, fun hf as u hrun hno => ?_⟩
  · show ((s.setRun t _).run t).running = true
    rw [hrun]
  · have hnow := hall [] _ rfl (fun a ha => by cases ha)
    rw [← hreq, ← htold]
    exact hnow
  · refine (Untold.runFrom as ⟨?_, ?_⟩ hno hrun).1
    · exact htold.trans (hreq.trans hf)
    · exact hreq.trans hf

/-- A task added after a stop and a restart runs on until the next stop. -/
theorem added_fresh_restarted : ∃ s : ThreadManager, s.running (.user 7) = true ∧ s.told (.user 7) = false := by
  obtain ⟨p, hrun⟩ : ∃ p, (machine.withHistory false stopPending).runFrom (machine.withHistory false stopPending).init
      [.stopAllThreads, .done, .restartAllThreads, .done, .addTask (some 7)] = some p := ⟨_, rfl⟩
  have hpc : p.1.pc = .adding [.user 7] := by cases hrun; rfl
  have hnew : p.1.running (.user 7) = false := by cases hrun; rfl
  have hh : p.2 = false := by cases hrun; rfl
  obtain ⟨s', hst⟩ : ∃ s', p.1.step (.start true) = some s' := by cases hrun; exact ⟨_, rfl⟩
  obtain ⟨⟨-, hrunning⟩, hfresh⟩ := added_fresh (Machine.reachable_of_run _ hrun) hpc hnew hst
  exact ⟨s', hrunning, hfresh.2 hh [] s' rfl (fun a ha => by cases ha)⟩

/-- **A task can be told to stop before it has begun**: one added after `stopAllThreads`. -/
theorem exists_stillborn : ¬ ∀ s s' t rest, machine.Reachable s → s.pc = .adding (t :: rest) → s.running t = false →
    s.step (.start true) = some s' → s'.told t = false := by
  intro hall
  obtain ⟨s, hrun⟩ : ∃ s, machine.runFrom machine.init [.stopAllThreads, .done, .addTask (some 7)] = some s := ⟨_, rfl⟩
  have hpc : s.pc = .adding [.user 7] := by cases hrun; rfl
  have hnew : s.running (.user 7) = false := by cases hrun; rfl
  obtain ⟨s', hst, htold⟩ : ∃ s', s.step (.start true) = some s' ∧ s'.told (.user 7) = true := by
    cases hrun; exact ⟨_, rfl, rfl⟩
  have := hall s s' _ _ (Machine.reachable_of_run _ hrun) hpc hnew hst
  rw [htold] at this
  cases this

/-! ## A task that runs and is told stays told -/

/-- No task has a token of a stop source to come. -/
def TokensMade (m : ThreadManager) : Prop := ∀ t k, (m.run t).token = some k → k ≤ m.stopSource

variable {m m' : ThreadManager}

theorem TokensMade.setRun (h : TokensMade m) {t : TaskId} {w : TaskRun}
    (hw : ∀ k, w.token = some k → k ≤ m.stopSource) : TokensMade (m.setRun t w) := by
  intro u k hk
  by_cases hu : u = t
  · rw [hu, run_setRun] at hk
    exact hw k hk
  · rw [run_setRun_of_ne w hu] at hk
    exact h u k hk

theorem TokensMade.start (h : TokensMade m) (t : TaskId) (ok : Bool) : TokensMade (m.startTask t ok).1 := by
  rcases m.startTask_cases t ok with ⟨-, -, -, heq⟩ | ⟨-, -, heq⟩
  · rw [heq]
    exact h.setRun (fun k hk => by cases hk; exact Nat.le_refl _)
  · rw [heq]; exact h

theorem tokensMade_step {a : ManagerAct} (h : TokensMade m) (hst : m.step a = some m') : TokensMade m' := by
  rcases step_cases hst with ⟨-, hcall⟩ | ⟨t, rest, ok, -, -, rfl⟩ | ⟨t, rest, ok, -, -, rfl⟩ |
    ⟨t, rest, clear, -, -, -, rfl⟩ | ⟨t, -, -, -, rfl⟩ | ⟨-, -, rfl⟩ | ⟨-, -, rfl⟩ | ⟨t, -, -, rfl⟩ | ⟨k, -, -, rfl⟩
  · intro t k hk
    rw [(callStep_run hcall t).2] at hk
    have hle := h t k hk
    unfold callStep at hcall
    split at hcall
    · cases hcall; exact hle
    · cases hcall; exact hle
    · cases hcall; exact hle
    · cases hcall; exact Nat.le_succ_of_le hle
    · cases hcall; exact hle
    · cases hcall; exact hle
    · split at hcall
      · cases hcall; exact hle
      · cases hcall; exact hle
    · cases hcall
      obtain ⟨buffer, sent, heq⟩ := m.sendObserverCommand_eq _
      rw [heq]; exact hle
    · cases hcall; exact hle
    · cases hcall
  · show TokensMade (m.addStep t ok)
    unfold addStep
    dsimp only
    split
    · exact h.start t ok
    · exact h.start t ok
  · show TokensMade (m.restartStep t ok)
    unfold restartStep
    split
    · exact h
    · exact h.start t ok
  · exact h
  · exact h
  · exact h
  · exact h
  · exact h.setRun (h t)
  · exact h

theorem reachable_tokensMade (hm : machine.Reachable m) : TokensMade m :=
  hm.invariant (I := TokensMade) (fun _ _ hk => by cases hk) (fun _ _ _ h hst => tokensMade_step h hst)

theorem told_iff {t : TaskId} : m.told t = true ↔
    (m.run t).stopped = true ∨ ∃ k, (m.run t).token = some k ∧ m.requested k = true := by
  unfold told
  rw [Bool.or_eq_true]
  cases (m.run t).token with
  | none => simp
  | some k => simp

theorem told_of_run {t : TaskId} (hs : (m.run t).stopped = true → (m'.run t).stopped = true)
    (htok : (m'.run t).token = (m.run t).token) (hreq : ∀ k, (m.run t).token = some k → m.requested k = true →
      m'.requested k = true) (h : m.told t = true) : m'.told t = true := by
  rcases told_iff.1 h with hst | ⟨k, hk, hr⟩
  · exact told_iff.2 (.inl (hs hst))
  · exact told_iff.2 (.inr ⟨k, by rw [htok]; exact hk, hreq k hk hr⟩)

/-- A start leaves a task that runs as it is. -/
theorem startTask_run_of_running {t u : TaskId} (ok : Bool) (hr : m.running t = true) :
    (m.startTask u ok).1.run t = m.run t := by
  rcases m.startTask_cases u ok with ⟨-, hno, -, heq⟩ | ⟨-, -, heq⟩
  · rw [heq]
    refine run_setRun_of_ne _ (fun he => ?_)
    rw [← he, hr] at hno
    cases hno
  · rw [heq]

/-- **A task that runs and has been told to stop stays told**, whatever the manager goes on to do: a restart replaces
the stop source, not the token. -/
theorem told_step {a : ManagerAct} {t : TaskId} (hm : TokensMade m) (hr : m.running t = true) (h : m.told t = true)
    (hst : m.step a = some m') : m'.told t = true := by
  have hstart : ∀ {n : ThreadManager} (u : TaskId) (ok : Bool), n.run t = (m.startTask u ok).1.run t →
      n.requested = m.requested → n.told t = true := by
    intro n u ok hrun hreq
    rw [startTask_run_of_running ok hr] at hrun
    exact told_of_run (by rw [hrun]; exact id) (by rw [hrun]) (fun _ _ hk => by rw [hreq]; exact hk) h
  rcases step_cases hst with ⟨-, hcall⟩ | ⟨u, rest, ok, -, -, rfl⟩ | ⟨u, rest, ok, -, -, rfl⟩ |
    ⟨u, rest, clear, -, -, -, rfl⟩ | ⟨u, -, -, -, rfl⟩ | ⟨-, -, rfl⟩ | ⟨-, -, rfl⟩ | ⟨u, -, -, rfl⟩ | ⟨k, -, -, rfl⟩
  · have hstop : (m.run t).stopped = true → (m'.run t).stopped = true := by
      intro hs
      rcases (callStep_frame hcall).2 t with heq | heq
      · rw [heq]; exact hs
      · rw [heq]; rfl
    refine told_of_run hstop (callStep_run hcall t).2 (fun k hk hreq => ?_) h
    have hle := hm t k hk
    have hset : ∀ j, Function.update m.requested j true k = true := by
      intro j
      rw [Function.update_apply]
      split
      · rfl
      · exact hreq
    unfold callStep at hcall
    split at hcall
    · cases hcall; exact hreq
    · cases hcall; exact hreq
    · cases hcall; exact hreq
    · cases hcall
      show Function.update m.requested (m.stopSource + 1) false k = true
      rw [Function.update_of_ne (by omega)]
      exact hreq
    · cases hcall; exact hset _
    · cases hcall; exact hset _
    · split at hcall
      · cases hcall; exact hreq
      · cases hcall; exact hreq
    · cases hcall
      obtain ⟨buffer, sent, heq⟩ := m.sendObserverCommand_eq _
      rw [heq]; exact hreq
    · cases hcall; exact hset _
    · cases hcall
  · refine hstart u ok ?_ (addStep_source m u ok).2
    show (m.addStep u ok).run t = _
    unfold addStep
    dsimp only
    split
    · rfl
    · rfl
  · show (m.restartStep u ok).told t = true
    unfold restartStep
    split
    · exact h
    · exact hstart u ok rfl rfl
  · exact h
  · exact h
  · exact h
  · exact h
  · by_cases htu : t = u
    · subst htu
      refine told_of_run (m := m) ?_ ?_ (fun _ _ hk => hk) h
      · rw [run_setRun]; exact id
      · rw [run_setRun]; exact rfl
    · refine told_of_run (m := m) ?_ ?_ (fun _ _ hk => hk) h
      · rw [run_setRun_of_ne _ htu]; exact id
      · rw [run_setRun_of_ne _ htu]
  · exact h

end ThreadManager
end ThreadMessaging

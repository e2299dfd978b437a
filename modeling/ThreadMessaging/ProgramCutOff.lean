import ThreadMessaging.ProgramExit
import ThreadMessaging.ManagerStop
/-!
# Whether the program can end

At its end `main` waits for every chain thread, and a chain thread waits to be told to stop.  A restart replaces the
stop source whether or not a thread runs; one that does is left with a token of the old source, which no later stop
requests.  The keys up to then decide: from any state the program can still end, exactly if no restart has found a chain
thread running (`exit_reachable_iff`).
-/
namespace ThreadMessaging
namespace Program

variable {options : List (Option Char)}

/-! ## Restarts that cut a thread off -/

/-- The restart key is handled while a chain thread runs. -/
def cutsOff (p : Program) : ProgramAct → Bool
  | .key k => decide (handleConsole k = .restart) && p.manager.tasks.any p.manager.running
  | _      => false

def cutOff (h : Bool) (p : Program) (a : ProgramAct) (_ : Program) : Bool := h || p.cutsOff a

/-- The task runs with a token of a source that has been replaced and was never requested. -/
structure Orphan (m : ThreadManager) (t : TaskId) (k : Nat) : Prop where
  running   : m.running t = true
  stopped   : (m.run t).stopped = false
  token     : (m.run t).token = some k
  replaced  : k < m.stopSource
  requested : m.requested k = false

theorem Orphan.told {m : ThreadManager} {t : TaskId} {k : Nat} (h : Orphan m t k) : m.told t = false := by
  refine ThreadManager.told_eq_false.2 ⟨h.stopped, fun k' hk => ?_⟩
  rw [h.token] at hk
  cases hk
  exact h.requested

theorem Orphan.setRun {m : ThreadManager} {t u : TaskId} {k : Nat} (h : Orphan m t k) (w : TaskRun) (hu : t ≠ u) :
    Orphan (m.setRun u w) t k := by
  have hrun : (m.setRun u w).run t = m.run t := ThreadManager.run_setRun_of_ne w hu
  refine ⟨?_, by rw [hrun]; exact h.stopped, by rw [hrun]; exact h.token, h.replaced, h.requested⟩
  show ((m.setRun u w).run t).running = true
  rw [hrun]; exact h.running

theorem Orphan.start {m : ThreadManager} {t : TaskId} {k : Nat} (h : Orphan m t k) (u : TaskId) (ok : Bool) :
    Orphan (m.startTask u ok).1 t k := by
  rcases m.startTask_cases u ok with ⟨-, hrun, -, heq⟩ | ⟨-, -, heq⟩
  · rw [heq]
    refine h.setRun _ fun htu => ?_
    rw [htu] at h
    rw [h.running] at hrun; cases hrun
  · rw [heq]; exact h

theorem Orphan.call {m m' : ThreadManager} {a : ManagerAct} {t : TaskId} {k : Nat} (h : Orphan m t k)
    (ha : a ≠ .stopLastThread) (hst : m.callStep a = some m') : Orphan m' t k := by
  obtain ⟨hrun, hstop, htok, hlt, hreq⟩ := h
  unfold ThreadManager.callStep at hst
  split at hst
  · cases hst; exact ⟨hrun, hstop, htok, hlt, hreq⟩
  · cases hst; exact ⟨hrun, hstop, htok, hlt, hreq⟩
  · cases hst; exact ⟨hrun, hstop, htok, hlt, hreq⟩
  · cases hst
    refine ⟨hrun, hstop, htok, Nat.lt_succ_of_lt hlt, ?_⟩
    exact (Function.update_of_ne (Nat.ne_of_lt (Nat.lt_succ_of_lt hlt)) ..).trans hreq
  · cases hst
    exact ⟨hrun, hstop, htok, hlt, (Function.update_of_ne (Nat.ne_of_lt hlt) ..).trans hreq⟩
  · cases hst
    exact ⟨hrun, hstop, htok, hlt, (Function.update_of_ne (Nat.ne_of_lt hlt) ..).trans hreq⟩
  · exact absurd rfl ha
  · cases hst
    obtain ⟨buffer, sent, heq⟩ := m.sendObserverCommand_eq _
    rw [heq]; exact ⟨hrun, hstop, htok, hlt, hreq⟩
  · cases hst
    exact ⟨hrun, hstop, htok, hlt, (Function.update_of_ne (Nat.ne_of_lt hlt) ..).trans hreq⟩
  · cases hst

/-- **No step but its own end frees an orphan**, and it is never told to end. -/
theorem Orphan.step {m m' : ThreadManager} {a : ManagerAct} {t : TaskId} {k : Nat} (h : Orphan m t k)
    (hst : m.step a = some m') (ha : a ≠ .stopLastThread) (hfin : a ≠ .finish t) : Orphan m' t k := by
  rcases ThreadManager.step_cases hst with ⟨-, hcall⟩ | ⟨u, rest, ok, -, -, rfl⟩ | ⟨u, rest, ok, -, -, rfl⟩ |
    ⟨u, rest, clear, -, -, -, rfl⟩ | ⟨u, -, -, -, rfl⟩ | ⟨-, -, rfl⟩ | ⟨-, -, rfl⟩ | ⟨u, rfl, -, rfl⟩ |
    ⟨k', -, -, rfl⟩
  · exact h.call ha hcall
  · have hadd : Orphan (m.addStep u ok) t k := by
      unfold ThreadManager.addStep
      dsimp only
      split
      · obtain ⟨hrun, hstop, htok, hlt, hreq⟩ := h.start u ok
        exact ⟨hrun, hstop, htok, hlt, hreq⟩
      · exact h.start u ok
    exact ⟨hadd.running, hadd.stopped, hadd.token, hadd.replaced, hadd.requested⟩
  · have hres : Orphan (m.restartStep u ok) t k := by
      unfold ThreadManager.restartStep
      split
      · exact h
      · exact h.start u ok
    exact ⟨hres.running, hres.stopped, hres.token, hres.replaced, hres.requested⟩
  · exact ⟨h.running, h.stopped, h.token, h.replaced, h.requested⟩
  · exact ⟨h.running, h.stopped, h.token, h.replaced, h.requested⟩
  · exact ⟨h.running, h.stopped, h.token, h.replaced, h.requested⟩
  · exact ⟨h.running, h.stopped, h.token, h.replaced, h.requested⟩
  · exact h.setRun _ (fun htu => hfin (htu ▸ rfl))
  · exact ⟨h.running, h.stopped, h.token, h.replaced, h.requested⟩

theorem operates_ne {pc pc' : MainPc} {b : ManagerAct} (h : Operates pc b pc') :
    b ≠ .stopLastThread ∧ ∀ t, b ≠ .finish t := by
  cases h <;> exact ⟨nofun, nofun⟩

theorem orphan_step {p q : Program} {a : ProgramAct} {t : TaskId} {k : Nat} (h : Orphan p.manager t k)
    (hst : p.step a = some q) : Orphan q.manager t k := by
  rcases steps_of_step hst with ⟨-, hm, -, -, -⟩ | ⟨b, hpc, hm, -, -, -⟩ | ⟨u, htold, hm, -, -, -⟩ | ⟨hm, -, -, -⟩ |
    ⟨b, -, -, hm, -⟩ | ⟨-, hm, -, -⟩
  · rw [hm]; exact h
  · exact h.step hm (operates_ne hpc).1 ((operates_ne hpc).2 t)
  · refine h.step hm nofun (fun hu => ?_)
    cases hu
    rw [h.told] at htold; cases htold
  · exact h.step hm nofun nofun
  · rw [hm]; exact h
  · rw [hm]; exact h

/-! ## Where no running thread has been told to stop -/

def Unstopped (m : ThreadManager) : Prop :=
  ∀ t, m.running t = true →
    (m.run t).stopped = false ∧ ∃ k, (m.run t).token = some k ∧ k ≤ m.stopSource ∧ m.requested k = false

theorem Unstopped.same {m m' : ThreadManager} (h : Unstopped m) (hrun : m'.run = m.run)
    (hsrc : m'.stopSource = m.stopSource) (hreq : m'.requested = m.requested) : Unstopped m' := by
  intro t ht
  rw [hrun, hsrc, hreq]
  exact h t (by unfold ThreadManager.running at ht ⊢; rw [← hrun]; exact ht)

theorem Unstopped.start {m : ThreadManager} (h : Unstopped m) (hreq : m.requested m.stopSource = false) (t : TaskId)
    (ok : Bool) : Unstopped (m.startTask t ok).1 := by
  rcases m.startTask_cases t ok with ⟨-, -, -, heq⟩ | ⟨-, -, heq⟩
  · rw [heq]
    intro u hu
    have hu : ((m.setRun t _).run u).running = true := hu
    by_cases hut : u = t
    · rw [hut, ThreadManager.run_setRun]
      exact ⟨rfl, m.stopSource, rfl, Nat.le_refl _, hreq⟩
    · rw [ThreadManager.run_setRun_of_ne _ hut] at hu ⊢
      exact h u hu
  · rw [heq]; exact h

theorem Unstopped.finish {m : ThreadManager} (h : Unstopped m) (t : TaskId) :
    Unstopped (m.setRun t (m.run t).finish) := by
  intro u hu
  obtain ⟨hrun, hut⟩ := ThreadManager.running_finish hu
  rw [ThreadManager.run_setRun_of_ne _ hut]
  exact h u hrun

theorem Unstopped.restart {m : ThreadManager} (h : Unstopped m) (pc : ManagerPc) :
    Unstopped { m with stopSource := m.stopSource + 1, pc := pc,
                       requested := Function.update m.requested (m.stopSource + 1) false } := by
  intro t ht
  obtain ⟨hstop, k, htok, hle, hreq⟩ := h t ht
  exact ⟨hstop, k, htok, Nat.le_succ_of_le hle,
    (Function.update_of_ne (Nat.ne_of_lt (Nat.lt_succ_of_le hle)) ..).trans hreq⟩

theorem unstopped_of_none {m : ThreadManager} (h : ∀ t, m.running t = false) : Unstopped m := by
  intro t ht
  rw [h t] at ht; cases ht

def inRestart : ManagerPc → Bool
  | .restarting _ => true
  | _             => false

/-- No stop is on its way. -/
def quiet : MainPc → ManagerPc → Bool
  | .operation     => inRestart
  | .closeAll      => fun _ => false
  | .closing       => fun _ => false
  | .destructor _  => fun _ => false
  | .terminating _ => fun _ => false
  | .leaving _     => fun _ => false
  | .exited _      => fun _ => false
  | _              => fun _ => true

/-- No running thread has been told to stop, and none that is about to be started will be. -/
structure QuietInv (m : ThreadManager) : Prop where
  unstopped : Unstopped m
  source    : inAddTask m.pc = true ∨ inRestart m.pc = true → m.requested m.stopSource = false

theorem QuietInv.idle {m : ThreadManager} (h : Unstopped m) (hpc : m.pc = .idle) : QuietInv m :=
  ⟨h, fun hs => by rw [hpc] at hs; rcases hs with hs | hs <;> cases hs⟩

theorem QuietInv.start {m m' : ThreadManager} {ok : Bool} (h : QuietInv m) (hst : m.step (.start ok) = some m') :
    QuietInv m' := by
  simp only [ThreadManager.step] at hst
  split at hst
  · rename_i t rest hpc
    cases hst
    have hreq := h.source (.inl (by rw [hpc]; rfl))
    have hadd : Unstopped (m.addStep t ok) := by
      unfold ThreadManager.addStep
      dsimp only
      split
      · exact (h.unstopped.start hreq t ok).same rfl rfl rfl
      · exact h.unstopped.start hreq t ok
    obtain ⟨hsrc, hreqs⟩ := m.addStep_source t ok
    exact ⟨hadd.same rfl rfl rfl, fun _ => by rw [hsrc, hreqs]; exact hreq⟩
  · rename_i t rest hpc
    cases hst
    have hreq := h.source (.inr (by rw [hpc]; rfl))
    have hres : Unstopped (m.restartStep t ok) := by
      unfold ThreadManager.restartStep
      split
      · exact h.unstopped
      · exact h.unstopped.start hreq t ok
    obtain ⟨hsrc, hreqs⟩ := m.restartStep_source t ok
    exact ⟨hres.same rfl rfl rfl, fun _ => by rw [hsrc, hreqs]; exact hreq⟩
  · cases hst

/-- Behind a join of all nothing runs, so that nothing has to be known of it. -/
theorem QuietInv.done {m m' : ThreadManager} (hr : m.RunningInv)
    (h : inAddTask m.pc = true ∨ inRestart m.pc = true → QuietInv m) (hst : m.step .done = some m') : QuietInv m' := by
  simp only [ThreadManager.step] at hst
  split at hst
  · rename_i hpc
    cases hst
    exact .idle ((h (.inl (by rw [hpc]; rfl))).unstopped.same rfl rfl rfl) rfl
  · rename_i hpc
    cases hst
    exact .idle ((h (.inr (by rw [hpc]; rfl))).unstopped.same rfl rfl rfl) rfl
  · rename_i clear hpc
    cases hst
    exact .idle (unstopped_of_none (fun t => hr.none_running hpc t)) rfl
  · cases hst

theorem quiet_goes {pc pc' : MainPc} (h : Goes pc pc') {m : ManagerPc} (hq : quiet pc' m = true) :
    quiet pc m = true := by
  cases h <;> first | rfl | cases hq

theorem quiet_calls {pc pc' : MainPc} {d : DaemonPc} {b : DaemonAct} (h : Calls pc d b pc') {m : ManagerPc}
    (hq : quiet pc' m = true) : quiet pc m = true := by
  cases h with
  | signal sig => exact hq
  | inside _ _ hd => exact hq
  | ret _ _ b hret =>
    unfold afterCall at hret
    split at hret <;> cases hret <;> first | rfl | cases hq
  | closeAll => cases hq
  | closed => cases hq
  | _ => rfl

theorem quietInv_operates {pc pc' : MainPc} {b : ManagerAct} (h : Operates pc b pc') {m m' : ThreadManager}
    {w : TaskRun} (hr : m.RunningInv) (hat : managerAt pc m.pc = true) (hl : Life m w pc)
    (hI : quiet pc m.pc = true → QuietInv m) (hst : m.step b = some m') (hq : quiet pc' m'.pc = true) :
    QuietInv m' := by
  cases h with
  | initTestChain =>
    obtain ⟨-, hcall⟩ := ThreadManager.callStep_of_isCall rfl hst
    have hinit := hl.1
    cases hcall
    exact ⟨(hI rfl).unstopped.same rfl rfl rfl, fun _ => by rw [hinit]; rfl⟩
  | add ok => exact (hI rfl).start hst
  | added => exact .done hr (fun _ => hI rfl) hst
  | stopAllThreads =>
    obtain ⟨-, hcall⟩ := ThreadManager.callStep_of_isCall rfl hst
    cases hcall; cases hq
  | restartAllThreads =>
    obtain ⟨-, hcall⟩ := ThreadManager.callStep_of_isCall rfl hst
    cases hcall
    exact ⟨(hI rfl).unstopped.restart _, fun _ => Function.update_self ..⟩
  | terminateAllThreads =>
    obtain ⟨-, hcall⟩ := ThreadManager.callStep_of_isCall rfl hst
    cases hcall; cases hq
  | sendObserverCommand cmd =>
    obtain ⟨hidle, hcall⟩ := ThreadManager.callStep_of_isCall rfl hst
    cases hcall
    obtain ⟨buffer, sent, heq⟩ := m.sendObserverCommand_eq cmd
    rw [heq]
    exact .idle ((hI rfl).unstopped.same rfl rfl rfl) hidle
  | start ok =>
    refine (hI ?_).start hst
    simp only [ThreadManager.step] at hst
    split at hst
    · rename_i hpc; rw [hpc] at hat; cases hat
    · rename_i hpc; rw [hpc]; rfl
    · cases hst
  | join =>
    simp only [ThreadManager.step] at hst
    split at hst
    · split at hst
      · cases hst
      · cases hst; cases hq
    · rename_i hpc; rw [hpc] at hat; cases hat
    · cases hst
  | done =>
    refine .done hr (fun hpc => ?_) hst
    rcases hpc with hpc | hpc
    · generalize m.pc = mpc at hat hpc
      cases mpc <;> first | cases hat; done | cases hpc
    · exact hI hpc
  | _ => cases hq

theorem quietInv_step {p q : Program} {a : ProgramAct} (hr : p.manager.RunningInv) (hat : p.Placed)
    (hl : Life p.manager p.worker p.pc) (hI : quiet p.pc p.manager.pc = true → QuietInv p.manager)
    (hst : p.step a = some q) (hq : quiet q.pc q.manager.pc = true) : QuietInv q.manager := by
  rcases steps_of_step hst with ⟨hpc, hm, -, -, -⟩ | ⟨b, hpc, hm, -, -, -⟩ | ⟨u, htold, hm, hpc, -, -⟩ |
    ⟨hm, hpc, -, -⟩ | ⟨b, hpc, -, hm, -⟩ | ⟨hpc, hm, -, -⟩
  · rw [hm] at hq ⊢
    exact hI (quiet_goes hpc hq)
  · exact quietInv_operates hpc hr hat.manager hl hI hm hq
  · -- no thread ends where none has been told to
    rw [hpc, pc_finish hm] at hq
    have hun := (hI hq).unstopped
    simp only [ThreadManager.step] at hm
    split at hm
    · rename_i hrun
      obtain ⟨hstop, k, htok, -, hreq⟩ := hun u hrun
      rw [ThreadManager.told, hstop, htok] at htold
      simp [hreq] at htold
    · cases hm
  · rw [hpc, pc_popCommand hm] at hq
    have hI := hI hq
    simp only [ThreadManager.step] at hm
    split at hm
    · rw [← Option.some.inj hm]
      exact ⟨hI.unstopped.same rfl rfl rfl, hI.source⟩
    · cases hm
  · rw [hm] at hq ⊢
    exact hI (quiet_calls hpc hq)
  · rw [hpc, hm] at hq
    rw [hm]
    exact hI hq

theorem reachable_quietInv {p : Program} (hp : (machine options).Reachable p)
    (hq : quiet p.pc p.manager.pc = true) : QuietInv p.manager := by
  refine Machine.Reachable.invariant_of
    (I := fun p => quiet p.pc p.manager.pc = true → QuietInv p.manager)
    (J := (machine options).Reachable) (fun _ h => h) (fun _ => ?_) (fun p a q hJ hI hst => ?_) hp hq
  · exact .idle (unstopped_of_none fun _ => rfl) rfl
  · exact quietInv_step (ThreadManager.reachable_runningInv (reachable_manager hJ)) (reachable_placed hJ)
      (reachable_life hJ) hI hst

/-- **A restart that finds a thread running leaves it an orphan.** -/
theorem orphan_of_cutsOff {p q : Program} {a : ProgramAct} (hp : (machine options).Reachable p)
    (hcut : p.cutsOff a = true) (hst : p.step a = some q) : ∃ t k, Orphan q.manager t k := by
  cases a with
  | key k =>
    simp only [cutsOff, Bool.and_eq_true, decide_eq_true_eq, List.any_eq_true] at hcut
    obtain ⟨hkey, t, -, hrun⟩ := hcut
    simp only [step] at hst
    split at hst
    · rename_i hpc
      split at hst
      · cases hst
      · simp only [keyStep, hkey] at hst
        obtain ⟨m, hm, rfl⟩ := callManager_eq hst
        obtain ⟨-, hcall⟩ := ThreadManager.callStep_of_isCall rfl hm
        obtain ⟨hstop, i, htok, hle, -⟩ := (reachable_quietInv hp (by rw [hpc]; rfl)).unstopped t hrun
        have hres := ((reachable_quietInv hp (by rw [hpc]; rfl)).unstopped.restart (.restarting p.manager.tasks)) t hrun
        obtain ⟨-, j, hj, -, hreq⟩ := hres
        cases hcall
        refine ⟨t, i, hrun, hstop, htok, Nat.lt_succ_of_le hle, ?_⟩
        have hij : some j = some i := hj.symm.trans htok
        cases hij
        exact hreq
    · cases hst
  | _ => cases hcut

/-! ## The way to the end -/

/-- Some run from here ends the program. -/
def CanExit (options : List (Option Char)) (p : Program) : Prop :=
  ∃ as q status, (machine options).runFrom p as = some q ∧ q.pc = .exited status

/-- A state without an orphan: what runs holds a token of the current stop source. -/
structure Sound (options : List (Option Char)) (p : Program) : Prop where
  reachable : (machine options).Reachable p
  current   : p.manager.CurrentInv

theorem Sound.step {p q : Program} {a : ProgramAct} (h : Sound options p) (hst : p.step a = some q)
    (hcut : p.cutsOff a = false) : Sound options q := by
  refine ⟨.step a h.reachable hst, ?_⟩
  rcases steps_of_step hst with ⟨-, hm, -, -, -⟩ | ⟨b, -, hm, -, -, hkey⟩ | ⟨u, -, hm, -, -, -⟩ | ⟨hm, -, -, -⟩ |
    ⟨b, -, -, hm, -⟩ | ⟨-, hm, -, -⟩
  · rw [hm]; exact h.current
  · refine ThreadManager.currentInv_step h.current ?_ hm
    cases b with
    | restartAllThreads =>
      obtain ⟨k, rfl, hk⟩ := hkey rfl
      simp only [cutsOff, hk, decide_true, Bool.true_and, List.any_eq_false, Bool.not_eq_true] at hcut
      exact List.all_eq_true.2 fun t ht => by rw [hcut t ht]; rfl
    | _ => rfl
  · exact ThreadManager.currentInv_step h.current rfl hm
  · exact ThreadManager.currentInv_step h.current rfl hm
  · rw [hm]; exact h.current
  · rw [hm]; exact h.current

theorem CanExit.of_step {p q : Program} {a : ProgramAct} (hst : p.step a = some q) (hq : CanExit options q) :
    CanExit options p := by
  obtain ⟨as, r, status, hrun, hpc⟩ := hq
  refine ⟨a :: as, r, status, ?_, hpc⟩
  rw [Machine.runFrom_cons]
  show (p.step a).bind _ = _
  rw [hst]
  exact hrun

theorem canExit_exited {p : Program} {status : Nat} (hpc : p.pc = .exited status) : CanExit options p :=
  ⟨[], p, status, rfl, hpc⟩

theorem canExit_leaving {p : Program} (h : Sound options p) {status : Nat} (hpc : p.pc = .leaving status) :
    CanExit options p := by
  have hstop : p.worker.stopped = true := by
    have hl := reachable_life h.reachable
    rw [hpc] at hl
    exact hl.1
  have hgo : ∀ r : Program, r.pc = .leaving status → r.worker.running = false → CanExit options r := by
    intro r hr hw
    have hst : r.step .go = some { r with pc := .exited status } := by simp [step, goStep, hr, hw]
    exact .of_step hst (canExit_exited rfl)
  cases hw : p.worker.running with
  | false => exact hgo p hpc hw
  | true =>
    have hst : p.step .finishWorker = some { p with worker := p.worker.finish } := by simp [step, hw, hstop]
    exact .of_step hst (hgo _ hpc rfl)

theorem idle_of_placed {p : Program} (h : p.Placed) (hpc : managerAt p.pc = isIdle) : p.manager.pc = .idle := by
  have hm := h.manager
  rw [hpc] at hm
  cases hidle : p.manager.pc <;> rw [hidle] at hm <;> first | rfl | cases hm

theorem out_of_placed {p : Program} (h : p.Placed) (hpc : daemonAt p.pc = isOut) : p.daemon.pc = .out := by
  have hd := h.daemon
  rw [hpc] at hd
  cases hout : p.daemon.pc <;> rw [hout] at hd <;> first | rfl | cases hd

/-- **A thread that is joined has been told to stop**, and can end. -/
theorem Sound.finish_step {p : Program} (h : Sound options p) {t : TaskId} {rest : List TaskId} {clear : Bool}
    (hm : p.manager.pc = .joining (t :: rest) clear) (hrun : p.manager.running t = true)
    (hpc : isExited p.pc = false) :
    p.step (.finish t) = some { p with manager := p.manager.setRun t (p.manager.run t).finish } := by
  obtain ⟨hreq, hmem⟩ := h.current.joining _ _ hm
  have htok := h.current.current t (hmem t (List.mem_cons_self ..)) hrun
  have htold : p.manager.told t = true := by simp [ThreadManager.told, htok, hreq]
  simp [Program.step, hpc, htold, callManager, ThreadManager.step, hrun]

/-- **The loop of `stopAllThreads` gets to its end.** -/
theorem canExit_joining {pc : MainPc} {clear : Bool} (hpc : pc = .operation ∨ ∃ status, pc = .terminating status)
    (hdone : ∀ p, Sound options p → p.pc = pc → p.manager.pc = .joining [] clear → CanExit options p) :
    ∀ (rest : List TaskId) {p : Program}, Sound options p → p.pc = pc → p.manager.pc = .joining rest clear →
      CanExit options p
  | [], p, h, hp, hm => hdone p h hp hm
  | t :: rest, p, h, hp, hm => by
    have hjoin : ∀ r : Program, Sound options r → r.pc = pc → r.manager.pc = .joining (t :: rest) clear →
        r.manager.running t = false → CanExit options r := by
      intro r hr hrp hrm hrun
      have hst : r.step (.manager .join) = some { r with manager := { r.manager with pc := .joining rest clear } } := by
        rcases hpc with rfl | ⟨status, rfl⟩
        · simp [step, managerStep, hrp, callManager, ThreadManager.step, hrm, hrun]
        · simp [step, managerStep, hrp, callManager, ThreadManager.step, hrm, hrun]
      exact .of_step hst (canExit_joining hpc hdone rest (hr.step hst rfl) hrp rfl)
    cases hrun : p.manager.running t with
    | false => exact hjoin p h hp hm hrun
    | true =>
      have hexit : isExited p.pc = false := by rcases hpc with rfl | ⟨status, rfl⟩ <;> rw [hp] <;> rfl
      have hst := h.finish_step hm hrun hexit
      refine .of_step hst (hjoin _ (h.step hst rfl) hp hm ?_)
      show ((p.manager.setRun t _).run t).running = false
      rw [ThreadManager.run_setRun]; rfl

theorem canExit_terminating_rest {p : Program} (h : Sound options p) {status : Nat} (hpc : p.pc = .terminating status)
    {rest : List TaskId} (hm : p.manager.pc = .joining rest true) : CanExit options p := by
  refine canExit_joining (.inr ⟨status, rfl⟩) (fun r hr hrp hrm => ?_) rest h hpc hm
  have hst : r.step (.manager .done) = some { r with manager := { r.manager with tasks := [], pc := .idle },
                                                     worker := r.worker.stop, pc := .leaving status } := by
    simp [step, managerStep, hrp, callManager, ThreadManager.step, hrm]
  exact .of_step hst (canExit_leaving (hr.step hst rfl) rfl)

theorem canExit_destructor {p : Program} (h : Sound options p) {status : Nat} (hpc : p.pc = .destructor status) :
    CanExit options p := by
  have hm := idle_of_placed (reachable_placed h.reachable) (by rw [hpc]; rfl)
  have hst : p.step .go = some { p with manager := p.manager.stopAll true, pc := .terminating status } := by
    simp [step, goStep, hpc, callManager, ThreadManager.step, hm, ThreadManager.callStep]
  exact .of_step hst (canExit_terminating_rest (h.step hst rfl) rfl rfl)

theorem canExit_closed {p : Program} (h : Sound options p) (hpc : p.pc = .closing) {b : Bool}
    (hd : p.daemon.pc = .ret b) : CanExit options p := by
  have hst : p.step .daemon = some { p with daemon := { p.daemon with pc := .out }, pc := .destructor 0 } := by
    simp [step, daemonStep, hpc, hd, afterCall, callDaemon, Daemon.step, Daemon.goStep]
  exact .of_step hst (canExit_destructor (h.step hst rfl) rfl)

/-- The close function stops the worker and waits for it. -/
theorem canExit_closeHandler {p : Program} (h : Sound options p) (hpc : p.pc = .closing)
    (hd : p.daemon.pc = .closeHandler) : CanExit options p := by
  have hjoin : ∀ r : Program, Sound options r → r.pc = .closing → r.daemon.pc = .closeHandler →
      r.worker.stopped = true → r.worker.running = false → CanExit options r := by
    intro r hr hrp hrd hstop hrun
    have hst : r.step .joinWorker = some { r with daemon := { r.daemon with pc := .ret true } } := by
      simp [step, hrp, hrd, hstop, hrun, callDaemon, Daemon.step, Daemon.returnsStep]
    exact .of_step hst (canExit_closed (hr.step hst rfl) hrp rfl)
  have hst : p.step .stopWorker = some { p with worker := p.worker.stop } := by simp [step, hpc, hd]
  have hq := h.step hst rfl
  refine .of_step hst ?_
  cases hw : p.worker.running with
  | false => exact hjoin _ hq hpc hd rfl hw
  | true =>
    have hst' : Program.step { p with worker := p.worker.stop } .finishWorker =
        some { p with worker := p.worker.stop.finish } := by
      simp [step, TaskRun.stop, hw]
    exact .of_step hst' (hjoin _ (hq.step hst' rfl) hpc hd rfl rfl)

theorem canExit_closeWrite {p : Program} (h : Sound options p) (hpc : p.pc = .closing)
    (hd : p.daemon.pc = .closeWrite) : CanExit options p := by
  have hbefore : p.daemon.handlers.beforeToExit = true := by rw [reachable_handlers h.reachable]; rfl
  have hst : p.step .daemon = some { p with daemon := { p.daemon with
      state := .stop, history := .closeAll :: p.daemon.history, pc := .closeHandler } } := by
    simp [step, daemonStep, inDaemon, hpc, hd, callDaemon, Daemon.step, Daemon.goStep, hbefore]
  exact .of_step hst (canExit_closeHandler (h.step hst rfl) hpc rfl)

theorem canExit_closeAll {p : Program} (h : Sound options p) (hpc : p.pc = .closeAll) : CanExit options p := by
  have hout := out_of_placed (reachable_placed h.reachable) (by rw [hpc]; rfl)
  have hst : p.step .go = some { p with daemon := { p.daemon with pc := .closeWrite }, pc := .closing } := by
    simp [step, goStep, hpc, callDaemon, Daemon.step, hout]
  exact .of_step hst (canExit_closeWrite (h.step hst rfl) rfl rfl)

theorem canExit_requestStop {p : Program} (h : Sound options p) (hpc : p.pc = .requestStop) : CanExit options p := by
  have hm := idle_of_placed (reachable_placed h.reachable) (by rw [hpc]; rfl)
  have hst : p.step .go = some { p with
      manager := { p.manager with requested := Function.update p.manager.requested p.manager.stopSource true },
      pc := .closeAll } := by
    simp [step, goStep, hpc, callManager, ThreadManager.step, hm, ThreadManager.callStep]
  exact .of_step hst (canExit_closeAll (h.step hst rfl) rfl)

/-! ## The loop, with a stop signal in it -/

theorem canExit_compare_stop {p : Program} (h : Sound options p) (hpc : p.pc = .isRunning)
    (hd : p.daemon.pc = .compare) (hstop : p.daemon.state = .stop) : CanExit options p := by
  have hst : p.step .daemon = some { p with daemon := { p.daemon with pc := .ret false } } := by
    simp [step, daemonStep, inDaemon, hpc, hd, callDaemon, Daemon.step, Daemon.goStep, hstop]
  have hst' : Program.step { p with daemon := { p.daemon with pc := .ret false } } .daemon =
      some { p with daemon := { p.daemon with pc := .out }, pc := .requestStop } := by
    simp [step, daemonStep, hpc, afterCall, callDaemon, Daemon.step, Daemon.goStep]
  exact .of_step hst (.of_step hst' (canExit_requestStop ((h.step hst rfl).step hst' rfl) rfl))

theorem step_test_of_ne {p : Program} (hpc : p.pc = .isRunning) {r : Request} (hd : p.daemon.pc = .test r)
    (hne : p.daemon.state ≠ r.state) :
    p.step .daemon = some { p with daemon := { p.daemon with pc := Daemon.nextTest r } } := by
  simp [step, daemonStep, inDaemon, hpc, hd, callDaemon, Daemon.step, Daemon.goStep, hne]

/-- **With `Stop` in the state every test fails**, and so does the comparison. -/
theorem canExit_test_stop {p : Program} (h : Sound options p) (hpc : p.pc = .isRunning) {r : Request}
    (hd : p.daemon.pc = .test r) (hstop : p.daemon.state = .stop) : CanExit options p := by
  have hne : ∀ q : Request, p.daemon.state ≠ q.state := fun q => by rw [hstop]; cases q <;> nofun
  have huser2 : ∀ q : Program, Sound options q → q.pc = .isRunning → q.daemon.pc = .test .user2 →
      q.daemon.state = p.daemon.state → CanExit options q := by
    intro q hq hqpc hqd hqs
    have hst := step_test_of_ne hqpc hqd (by rw [hqs]; exact hne _)
    exact .of_step hst (canExit_compare_stop (hq.step hst rfl) hqpc rfl (hqs.trans hstop))
  have huser1 : ∀ q : Program, Sound options q → q.pc = .isRunning → q.daemon.pc = .test .user1 →
      q.daemon.state = p.daemon.state → CanExit options q := by
    intro q hq hqpc hqd hqs
    have hst := step_test_of_ne hqpc hqd (by rw [hqs]; exact hne _)
    exact .of_step hst (huser2 _ (hq.step hst rfl) hqpc rfl hqs)
  cases r with
  | reload =>
    have hst := step_test_of_ne hpc hd (hne _)
    exact .of_step hst (huser1 _ (h.step hst rfl) hpc rfl rfl)
  | user1 => exact huser1 p h hpc hd rfl
  | user2 => exact huser2 p h hpc hd rfl

/-- A SIGTERM before the poll. -/
theorem canExit_loop {p : Program} (h : Sound options p) (hpc : p.pc = .loop) : CanExit options p := by
  have hst : p.step (.signal .sigterm) = some { p with
      daemon := { p.daemon with state := .stop, history := .signal .sigterm :: p.daemon.history } } := by
    simp [step, isExited, hpc, callDaemon, Daemon.step, signalHandler]
  have hq := h.step hst rfl
  have hout := out_of_placed (reachable_placed hq.reachable) (by show daemonAt p.pc = isOut; rw [hpc]; rfl)
  have hst' : Program.step { p with
        daemon := { p.daemon with state := .stop, history := .signal .sigterm :: p.daemon.history } } .go =
      some { p with daemon := { p.daemon with state := .stop, history := .signal .sigterm :: p.daemon.history,
                                              pc := .test .reload,
                                              begun := .signal .sigterm :: p.daemon.history },
                    pc := .isRunning } := by
    have hout : p.daemon.pc = .out := hout
    simp [step, goStep, hpc, callDaemon, Daemon.step, hout]
  exact .of_step hst (.of_step hst' (canExit_test_stop (hq.step hst' rfl) rfl rfl rfl))

theorem canExit_handleConsole {p : Program} (h : Sound options p) (hpc : p.pc = .handleConsole) :
    CanExit options p := by
  cases hdaemon : p.isDaemon with
  | true =>
    have hst : p.step .go = some { p with pc := .loop } := by simp [step, goStep, hpc, hdaemon]
    exact .of_step hst (canExit_loop (h.step hst rfl) rfl)
  | false =>
    have hst : p.step (.key none) = some { p with pc := .loop } := by
      simp [step, hpc, hdaemon, keyStep, ThreadMessaging.handleConsole]
    exact .of_step hst (canExit_loop (h.step hst rfl) rfl)

theorem canExit_polled {p : Program} (h : Sound options p) (hpc : p.pc = .isRunning) {b : Bool}
    (hd : p.daemon.pc = .ret b) : CanExit options p := by
  cases b with
  | true =>
    have hst : p.step .daemon = some { p with daemon := { p.daemon with pc := .out }, pc := .handleConsole } := by
      simp [step, daemonStep, hpc, hd, afterCall, callDaemon, Daemon.step, Daemon.goStep]
    exact .of_step hst (canExit_handleConsole (h.step hst rfl) rfl)
  | false =>
    have hst : p.step .daemon = some { p with daemon := { p.daemon with pc := .out }, pc := .requestStop } := by
      simp [step, daemonStep, hpc, hd, afterCall, callDaemon, Daemon.step, Daemon.goStep]
    exact .of_step hst (canExit_requestStop (h.step hst rfl) rfl)

theorem canExit_compare {p : Program} (h : Sound options p) (hpc : p.pc = .isRunning) (hd : p.daemon.pc = .compare) :
    CanExit options p := by
  have hst : p.step .daemon =
      some { p with daemon := { p.daemon with pc := .ret (p.daemon.state = .running) } } := by
    simp [step, daemonStep, inDaemon, hpc, hd, callDaemon, Daemon.step, Daemon.goStep]
  exact .of_step hst (canExit_polled (h.step hst rfl) hpc rfl)

theorem canExit_writeStop {p : Program} (h : Sound options p) (hpc : p.pc = .isRunning)
    (hd : p.daemon.pc = .writeStop) : CanExit options p := by
  have hst : p.step .daemon = some { p with daemon := { p.daemon with state := .stop, pc := .compare } } := by
    simp [step, daemonStep, inDaemon, hpc, hd, callDaemon, Daemon.step, Daemon.goStep]
  exact .of_step hst (canExit_compare (h.step hst rfl) hpc rfl)

theorem canExit_inHandler {p : Program} (h : Sound options p) (hpc : p.pc = .isRunning) {r : Request}
    (hd : p.daemon.pc = .inHandler r) : CanExit options p := by
  have hst : p.step .userHandler = some { p with daemon := { p.daemon with pc := .compare } } := by
    simp [step, hpc, hd, callDaemon, Daemon.step, Daemon.returnsStep]
  exact .of_step hst (canExit_compare (h.step hst rfl) hpc rfl)

theorem canExit_call {p : Program} (h : Sound options p) (hpc : p.pc = .isRunning) {r : Request}
    (hd : p.daemon.pc = .call r) : CanExit options p := by
  have hst : p.step .daemon =
      some { p with daemon := { p.daemon with history := .handler r :: p.daemon.history, pc := .inHandler r } } := by
    simp [step, daemonStep, inDaemon, hpc, hd, callDaemon, Daemon.step, Daemon.goStep]
  exact .of_step hst (canExit_inHandler (h.step hst rfl) hpc rfl)

theorem canExit_write {p : Program} (h : Sound options p) (hpc : p.pc = .isRunning) {r : Request}
    (hd : p.daemon.pc = .write r) : CanExit options p := by
  have hall : p.daemon.handlers.request r = true := by rw [reachable_handlers h.reachable]; rfl
  have hst : p.step .daemon = some { p with daemon := { p.daemon with state := .running, pc := .call r } } := by
    cases r <;>
      simp [step, daemonStep, inDaemon, hpc, hd, callDaemon, Daemon.step, Daemon.goStep,
        Daemon.performReloadIfRequired, Daemon.performUser1IfRequired, Daemon.performUser2IfRequired,
        Daemon.performIfRequired, hall]
  exact .of_step hst (canExit_call (h.step hst rfl) hpc rfl)

/-- A test of the poll leads to its perform function or past it. -/
theorem canExit_test_next {p : Program} (h : Sound options p) (hpc : p.pc = .isRunning) {r : Request}
    (hd : p.daemon.pc = .test r)
    (hnext : ∀ q, Sound options q → q.pc = .isRunning → q.daemon.pc = Daemon.nextTest r → CanExit options q) :
    CanExit options p := by
  by_cases hs : p.daemon.state = r.state
  · have hst : p.step .daemon = some { p with daemon := { p.daemon with pc := .write r } } := by
      simp [step, daemonStep, inDaemon, hpc, hd, callDaemon, Daemon.step, Daemon.goStep, hs]
    exact .of_step hst (canExit_write (h.step hst rfl) hpc rfl)
  · have hst := step_test_of_ne hpc hd hs
    exact .of_step hst (hnext _ (h.step hst rfl) hpc rfl)

theorem canExit_test {p : Program} (h : Sound options p) (hpc : p.pc = .isRunning) {r : Request}
    (hd : p.daemon.pc = .test r) : CanExit options p := by
  have huser2 : ∀ q : Program, Sound options q → q.pc = .isRunning → q.daemon.pc = .test .user2 → CanExit options q :=
    fun q hq hqpc hqd => canExit_test_next hq hqpc hqd fun _ hq' hpc' hd' => canExit_compare hq' hpc' hd'
  have huser1 : ∀ q : Program, Sound options q → q.pc = .isRunning → q.daemon.pc = .test .user1 → CanExit options q :=
    fun q hq hqpc hqd => canExit_test_next hq hqpc hqd huser2
  cases r with
  | reload => exact canExit_test_next h hpc hd huser1
  | user1 => exact huser1 p h hpc hd
  | user2 => exact huser2 p h hpc hd

theorem canExit_isRunning {p : Program} (h : Sound options p) (hpc : p.pc = .isRunning) : CanExit options p := by
  have hat := (reachable_placed h.reachable).daemon
  rw [hpc] at hat
  cases hd : p.daemon.pc with
  | test r => exact canExit_test h hpc hd
  | write r => exact canExit_write h hpc hd
  | call r => exact canExit_call h hpc hd
  | inHandler r => exact canExit_inHandler h hpc hd
  | writeStop => exact canExit_writeStop h hpc hd
  | compare => exact canExit_compare h hpc hd
  | ret b => exact canExit_polled h hpc hd
  | _ => rw [hd] at hat; cases hat

theorem canExit_closing {p : Program} (h : Sound options p) (hpc : p.pc = .closing) : CanExit options p := by
  have hat := (reachable_placed h.reachable).daemon
  rw [hpc] at hat
  cases hd : p.daemon.pc with
  | closeWrite => exact canExit_closeWrite h hpc hd
  | closeHandler => exact canExit_closeHandler h hpc hd
  | ret b => exact canExit_closed h hpc hd
  | _ => rw [hd] at hat; cases hat

/-! ## The operations, and the way into the loop -/

theorem canExit_restarting : ∀ (rest : List TaskId) {p : Program}, Sound options p → p.pc = .operation →
    p.manager.pc = .restarting rest → CanExit options p
  | [], p, h, hpc, hm => by
    have hst : p.step (.manager .done) = some { p with manager := { p.manager with pc := .idle }, pc := .loop } := by
      simp [step, managerStep, hpc, callManager, ThreadManager.step, hm]
    exact .of_step hst (canExit_loop (h.step hst rfl) rfl)
  | t :: rest, p, h, hpc, hm => by
    have hst : p.step (.manager (.start false)) =
        some { p with manager := { p.manager.restartStep t false with pc := .restarting rest } } := by
      simp [step, managerStep, hpc, callManager, ThreadManager.step, hm]
    exact .of_step hst (canExit_restarting rest (h.step hst rfl) hpc rfl)

theorem canExit_operation {p : Program} (h : Sound options p) (hpc : p.pc = .operation) : CanExit options p := by
  have hat := (reachable_placed h.reachable).manager
  rw [hpc] at hat
  cases hm : p.manager.pc with
  | restarting rest => exact canExit_restarting rest h hpc hm
  | joining rest clear =>
    refine canExit_joining (.inl rfl) (fun r hr hrp hrm => ?_) rest h hpc hm
    have hst : r.step (.manager .done) = some { r with
        manager := { r.manager with tasks := if clear then [] else r.manager.tasks, pc := .idle }, pc := .loop } := by
      simp [step, managerStep, hrp, callManager, ThreadManager.step, hrm]
    exact .of_step hst (canExit_loop (hr.step hst rfl) rfl)
  | _ => rw [hm] at hat; cases hat

theorem canExit_terminating {p : Program} (h : Sound options p) {status : Nat} (hpc : p.pc = .terminating status) :
    CanExit options p := by
  have hat := (reachable_placed h.reachable).manager
  rw [hpc] at hat
  cases hm : p.manager.pc with
  | joining rest clear =>
    rw [hm] at hat
    cases clear with
    | true => exact canExit_terminating_rest h hpc hm
    | false => cases hat
  | _ => rw [hm] at hat; cases hat

theorem canExit_started {p : Program} (h : Sound options p) (hpc : p.pc = .starting) {b : Bool}
    (hd : p.daemon.pc = .ret b) : CanExit options p := by
  cases b with
  | true =>
    have hst : p.step .daemon = some { p with daemon := { p.daemon with pc := .out }, pc := .loop } := by
      simp [step, daemonStep, hpc, hd, afterCall, callDaemon, Daemon.step, Daemon.goStep]
    exact .of_step hst (canExit_loop (h.step hst rfl) rfl)
  | false =>
    have hst : p.step .daemon = some { p with daemon := { p.daemon with pc := .out }, pc := .destructor 1 } := by
      simp [step, daemonStep, hpc, hd, afterCall, callDaemon, Daemon.step, Daemon.goStep]
    exact .of_step hst (canExit_destructor (h.step hst rfl) rfl)

theorem canExit_startHandler {p : Program} (h : Sound options p) (hpc : p.pc = .starting)
    (hd : p.daemon.pc = .startHandler) : CanExit options p := by
  have hst : p.step (.startWorker true) = some { p with
      daemon := { p.daemon with pc := .ret (p.worker.start none true).2 },
      worker := (p.worker.start none true).1 } := by
    simp [step, startWorkerStep, hpc, hd, Daemon.step, Daemon.returnsStep]
  exact .of_step hst (canExit_started (h.step hst rfl) hpc rfl)

theorem canExit_startWrite {p : Program} (h : Sound options p) (hpc : p.pc = .starting)
    (hd : p.daemon.pc = .startWrite) : CanExit options p := by
  have hbefore : p.daemon.handlers.beforeToStart = true := by rw [reachable_handlers h.reachable]; rfl
  have hst : p.step .daemon = some { p with daemon := { p.daemon with
      state := .running, history := .startAll :: p.daemon.history, pc := .startHandler } } := by
    simp [step, daemonStep, inDaemon, hpc, hd, callDaemon, Daemon.step, Daemon.goStep, hbefore]
  exact .of_step hst (canExit_startHandler (h.step hst rfl) hpc rfl)

theorem canExit_starting {p : Program} (h : Sound options p) (hpc : p.pc = .starting) : CanExit options p := by
  have hat := (reachable_placed h.reachable).daemon
  rw [hpc] at hat
  cases hd : p.daemon.pc with
  | startWrite => exact canExit_startWrite h hpc hd
  | startHandler => exact canExit_startHandler h hpc hd
  | ret b => exact canExit_started h hpc hd
  | _ => rw [hd] at hat; cases hat

theorem canExit_startAll {p : Program} (h : Sound options p) (hpc : p.pc = .startAll) : CanExit options p := by
  have hout := out_of_placed (reachable_placed h.reachable) (by rw [hpc]; rfl)
  have hst : p.step .go = some { p with daemon := { p.daemon with pc := .startWrite }, pc := .starting } := by
    simp [step, goStep, hpc, callDaemon, Daemon.step, hout]
  exact .of_step hst (canExit_startWrite (h.step hst rfl) rfl rfl)

theorem canExit_adding : ∀ (rest : List TaskId) {p : Program}, Sound options p → p.pc = .adding →
    p.manager.pc = .adding rest → CanExit options p
  | [], p, h, hpc, hm => by
    have hst : p.step (.manager .done) =
        some { p with manager := { p.manager with pc := .idle }, pc := .startAll } := by
      simp [step, managerStep, hpc, callManager, ThreadManager.step, hm]
    exact .of_step hst (canExit_startAll (h.step hst rfl) rfl)
  | t :: rest, p, h, hpc, hm => by
    have hst : p.step (.manager (.start true)) =
        some { p with manager := { p.manager.addStep t true with pc := .adding rest } } := by
      simp [step, managerStep, hpc, callManager, ThreadManager.step, hm]
    exact .of_step hst (canExit_adding rest (h.step hst rfl) hpc rfl)

theorem canExit_initTestChain {p : Program} (h : Sound options p) (hpc : p.pc = .initTestChain) :
    CanExit options p := by
  have hm := idle_of_placed (reachable_placed h.reachable) (by rw [hpc]; rfl)
  have hst : p.step .go = some { p with
      manager := { p.manager with observerIncoming := some p.manager.chains, chains := p.manager.chains + 1,
                                  pc := .adding (ChainTask.all.map (.chain p.manager.chains)) },
      pc := .adding } := by
    simp [step, goStep, hpc, callManager, ThreadManager.step, hm, ThreadManager.callStep]
  exact .of_step hst (canExit_adding _ (h.step hst rfl) rfl rfl)

theorem canExit_makeDaemon {p : Program} (h : Sound options p) (hpc : p.pc = .makeDaemon) : CanExit options p := by
  have hst : p.step (.forks .child true true true) = some { p with pc := .initTestChain } := by
    simp [step, hpc, ThreadMessaging.makeDaemon]
  exact .of_step hst (canExit_initTestChain (h.step hst rfl) rfl)

theorem canExit_commandLine {p : Program} (h : Sound options p) (hpc : p.pc = .commandLine) :
    CanExit options p := by
  cases hparse : processCommandLine false p.options with
  | exit status =>
    have hst : p.step .go = some { p with pc := .exited status } := by simp [step, goStep, hpc, hparse]
    exact .of_step hst (canExit_exited rfl)
  | goesOn isDaemon =>
    have hst : p.step .go = some { p with isDaemon := isDaemon,
                                          pc := if isDaemon then .makeDaemon else .initTestChain } := by
      simp [step, goStep, hpc, hparse]
    refine .of_step hst ?_
    cases isDaemon with
    | true => exact canExit_makeDaemon (h.step hst rfl) rfl
    | false => exact canExit_initTestChain (h.step hst rfl) rfl

theorem canExit_of_sound {p : Program} (h : Sound options p) : CanExit options p := by
  cases hpc : p.pc with
  | commandLine => exact canExit_commandLine h hpc
  | makeDaemon => exact canExit_makeDaemon h hpc
  | initTestChain => exact canExit_initTestChain h hpc
  | adding =>
    have hat := (reachable_placed h.reachable).manager
    rw [hpc] at hat
    cases hm : p.manager.pc with
    | adding rest => exact canExit_adding rest h hpc hm
    | _ => rw [hm] at hat; cases hat
  | startAll => exact canExit_startAll h hpc
  | starting => exact canExit_starting h hpc
  | loop => exact canExit_loop h hpc
  | isRunning => exact canExit_isRunning h hpc
  | handleConsole => exact canExit_handleConsole h hpc
  | operation => exact canExit_operation h hpc
  | requestStop => exact canExit_requestStop h hpc
  | closeAll => exact canExit_closeAll h hpc
  | closing => exact canExit_closing h hpc
  | destructor status => exact canExit_destructor h hpc
  | terminating status => exact canExit_terminating h hpc
  | leaving status => exact canExit_leaving h hpc
  | exited status => exact canExit_exited hpc

/-- **What a run has left behind**: an orphan, if a restart has found a thread running, and otherwise none. -/
theorem reachable_cutOff {p : Program} {h : Bool} (hp : ((machine options).withHistory false cutOff).Reachable (p, h)) :
    (h = true → ∃ t k, Orphan p.manager t k) ∧ (h = false → p.manager.CurrentInv) := by
  have hinit : (false = true → ∃ t k, Orphan ThreadManager.init t k) ∧
      (false = false → ThreadManager.init.CurrentInv) :=
    ⟨nofun, fun _ => ⟨fun t ht => (by cases ht), nofun⟩⟩
  refine Machine.Reachable.history_invariant (J := (machine options).Reachable)
    (I := fun p h => (h = true → ∃ t k, Orphan p.manager t k) ∧ (h = false → p.manager.CurrentInv))
    (fun _ hr => hr) hinit (fun p h a q hr hI hst => ?_) hp
  have hst : p.step a = some q := hst
  refine ⟨fun hcut => ?_, fun hcut => ?_⟩
  · rcases Bool.or_eq_true_iff.1 hcut with hcut | hcut
    · obtain ⟨t, k, ho⟩ := hI.1 hcut
      exact ⟨t, k, orphan_step ho hst⟩
    · exact orphan_of_cutsOff hr hcut hst
  · obtain ⟨hh, hcut⟩ := Bool.or_eq_false_iff.1 hcut
    exact ((⟨hr, hI.2 hh⟩ : Sound options p).step hst hcut).current

/-- **From any state the program can still end, exactly if no restart has found a chain thread running**: after one that
has, no stop, no signal the daemon handles and no key ends the program any more; before it, some run does, from wherever
`main` stands. -/
theorem exit_reachable_iff {p : Program} {h : Bool}
    (hp : ((machine options).withHistory false cutOff).Reachable (p, h)) :
    (∃ as q status, (machine options).runFrom p as = some q ∧ q.pc = .exited status) ↔ h = false := by
  obtain ⟨hcut, hcur⟩ := reachable_cutOff hp
  constructor
  · rintro ⟨as, q, status, hrun, hpc⟩
    by_contra hh
    obtain ⟨t, k, ho⟩ := hcut (by simpa using hh)
    have hq : Orphan q.manager t k :=
      Machine.runFrom_invariant (I := fun r => Orphan r.manager t k) (fun _ _ _ ho hst => orphan_step ho hst) as ho hrun
    have hl := reachable_life (Machine.Reachable.runFrom as hp.fst hrun)
    rw [hpc] at hl
    have hnot := hl.2.running t
    rw [hq.running] at hnot; cases hnot
  · intro hh
    exact canExit_of_sound ⟨hp.fst, hcur hh⟩

/-- The restart key, with one chain thread running. -/
theorem exit_reachable_iff_restarted : ∃ p : Program, p.manager.running (.chain 0 .result) = true ∧
    ¬ ∃ as q status, (machine []).runFrom p as = some q ∧ q.pc = .exited status := by
  obtain ⟨r, hrun⟩ : ∃ r, ((machine []).withHistory false cutOff).runFrom ((machine []).withHistory false cutOff).init
      [.go, .go, .manager (.start false), .manager (.start false), .manager (.start false), .manager (.start false),
       .manager (.start true), .manager .done, .go, .daemon, .startWorker true, .daemon, .go, .daemon, .daemon,
       .daemon, .daemon, .daemon, .key (some 'r')] = some r := ⟨_, rfl⟩
  obtain ⟨p, h⟩ := r
  have hresult : p.manager.running (.chain 0 .result) = true := by cases hrun; rfl
  have hcut : h = true := by cases hrun; rfl
  refine ⟨p, hresult, fun hexit => ?_⟩
  rw [(exit_reachable_iff (Machine.reachable_of_run _ hrun)).1 hexit] at hcut
  cases hcut

end Program
end ThreadMessaging

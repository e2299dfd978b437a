import ThreadMessaging.WorkerLife
/-!
# A worker as its manager sees it

To the one thread that starts and joins it, a worker is a flag, the external token of its newest thread and whether
`stop` has been called on that thread: `start` and a thread's end are one step each.  Every reachable worker is, seen
so, a reachable `TaskRun` (`reachable_taskRun`): the steps inside `start`, the callbacks and the exits of older threads
do not show.
-/
namespace ThreadMessaging

structure TaskRun where
  running : Bool := false
  token   : Option Nat := none
  stopped : Bool := false
  deriving DecidableEq, Repr

inductive TaskRunAct
  | start (token : Option Nat)
  | stop
  | finish
  deriving DecidableEq, Repr

namespace TaskRun

/-- `start`, where `ok` stands for `isReadyToStart` and the creation of the thread. -/
def start (w : TaskRun) (token : Option Nat) (ok : Bool) : TaskRun × Bool :=
  if w.running || !ok then (w, false) else ({ running := true, token := token }, true)

def stop (w : TaskRun) : TaskRun := { w with stopped := true }

def finish (w : TaskRun) : TaskRun := { w with running := false }

def step (w : TaskRun) : TaskRunAct → Option TaskRun
  | .start token => if w.running then none else some (w.start token true).1
  | .stop        => some w.stop
  | .finish      => if w.running then some w.finish else none

def machine : Machine TaskRun TaskRunAct where
  init := {}
  step := step

end TaskRun

namespace Worker

def taskRun (s : Worker) : TaskRun where
  running := (s.threads (s.born - 1)).pc.live
  token   := (s.threads (s.born - 1)).token
  stopped := (s.sources (.own (s.born - 1))).requested

/-- No stop has been requested on the source of a thread to come. -/
def OwnFresh (s : Worker) : Prop := ∀ i, s.born ≤ i → (s.sources (.own i)).requested = false

theorem requested_setSource_returns {s : Worker} {k k' : SourceId} :
    ((s.setSource k (s.sources k).requestReturns).sources k').requested = (s.sources k').requested := by
  exact apply_update_of_eq (fun _ (src : StopSource) => src.requested) (StopSource.requested_requestReturns _) k'

theorem requestOwnReturns_requested {s t : Worker} (h : s.requestOwnReturns = some t) (k : SourceId) :
    (t.sources k).requested = (s.sources k).requested := by
  unfold requestOwnReturns at h
  split at h
  · split at h
    · cases h; exact requested_setSource_returns
    · cases h
  · cases h

theorem requested_setSource_of_ne {s : Worker} {k k' : SourceId} {src : StopSource} (h : k' ≠ k) :
    ((s.setSource k src).sources k').requested = (s.sources k').requested := by
  show (Function.update s.sources k _ k').requested = _
  rw [Function.update_of_ne h]

theorem setThread_same {s : Worker} {i : Nat} {th : WorkerThread} (hl : th.pc.live = (s.threads i).pc.live)
    (htok : th.token = (s.threads i).token) (j : Nat) :
    ((s.setThread i th).threads j).pc.live = (s.threads j).pc.live ∧
      ((s.setThread i th).threads j).token = (s.threads j).token := by
  show (Function.update s.threads i th j).pc.live = _ ∧ (Function.update s.threads i th j).token = _
  by_cases hji : j = i
  · rw [hji, Function.update_self]; exact ⟨hl, htok⟩
  · rw [Function.update_of_ne hji]; exact ⟨rfl, rfl⟩

theorem taskRun_eq {s t : Worker} (hb : t.born = s.born)
    (hth : (t.threads (s.born - 1)).pc.live = (s.threads (s.born - 1)).pc.live ∧
      (t.threads (s.born - 1)).token = (s.threads (s.born - 1)).token)
    (hr : (t.sources (.own (s.born - 1))).requested = (s.sources (.own (s.born - 1))).requested) :
    t.taskRun = s.taskRun := by
  unfold taskRun
  rw [hb, hth.1, hth.2, hr]

theorem taskRun_frame {s t : Worker} (hf : OwnFresh s) (hb : t.born = s.born) (hth : t.threads = s.threads)
    (hr : ∀ i, (t.sources (.own i)).requested = (s.sources (.own i)).requested) :
    OwnFresh t ∧ (t.taskRun = s.taskRun ∨ ∃ b, s.taskRun.step b = some t.taskRun) := by
  refine ⟨fun i hi => ?_, .inl (taskRun_eq hb (by rw [hth]; exact ⟨rfl, rfl⟩) (hr _))⟩
  rw [hr]; rw [hb] at hi; exact hf i hi

theorem taskRun_requestOwn {s t : Worker} (h : LifeInv s) (hf : OwnFresh s) (hj : s.joinable = true)
    (hb : t.born = s.born) (hthr : t.threads = s.threads) (hsrc : t.sources = s.requestOwn.sources) :
    OwnFresh t ∧ (t.taskRun = s.taskRun ∨ ∃ b, s.taskRun.step b = some t.taskRun) := by
  obtain ⟨k, hth, hk, -⟩ := h.handle hj
  refine ⟨fun i hi => ?_, ?_⟩
  · rw [hb] at hi
    rw [hsrc, requestOwn_requested hth, if_neg (fun he => by cases he; omega)]
    exact hf i hi
  · by_cases hn : s.born - 1 = k
    · right
      refine ⟨.stop, congrArg some ?_⟩
      unfold taskRun TaskRun.stop
      rw [hb, hthr, hsrc, requestOwn_requested hth, hn, if_pos rfl]
    · left
      refine taskRun_eq hb (by rw [hthr]; exact ⟨rfl, rfl⟩) ?_
      rw [hsrc, requestOwn_requested hth, if_neg (fun he => hn (by cases he; rfl))]

/-- A thread's step shows if it is its `markStopped`: the thread is the newest one then. -/
theorem taskRun_threadStep {s t : Worker} {i : Nat} (h : LifeInv s) (hst : s.threadStep i = some t) :
    t.taskRun = s.taskRun ∨ ∃ b, s.taskRun.step b = some t.taskRun := by
  rcases threadStep_cases hst with ⟨hs, th, rfl, ht, htok⟩ | ⟨hs, th, rfl, ht, htok⟩ | ⟨hs, th, rfl, ht, htok⟩
  · exact .inl (taskRun_eq rfl (setThread_same (ht.trans hs.symm) htok _) rfl)
  · have hlive : (s.threads i).pc.live = true := by rw [hs]; rfl
    have hnew : s.born - 1 = i := by have := (h.live i hlive).1; omega
    right
    refine ⟨.finish, ?_⟩
    have hrun : s.taskRun.running = true := by
      show (s.threads (s.born - 1)).pc.live = true
      rw [hnew]; exact hlive
    rw [TaskRun.step, if_pos hrun]
    refine congrArg some ?_
    unfold taskRun TaskRun.finish
    show _ = TaskRun.mk (Function.update s.threads i th (s.born - 1)).pc.live
      (Function.update s.threads i th (s.born - 1)).token (s.sources (.own (s.born - 1))).requested
    rw [hnew, Function.update_self, ht, htok]
    rfl
  · exact .inl (taskRun_eq rfl (setThread_same (by rw [ht, hs]; rfl) htok _) rfl)

/-- The creation of a thread is the `start` the manager sees. -/
theorem taskRun_create {s : Worker} (h : LifeInv s) (hf : OwnFresh s) (hc : s.ctl = .create) {t : Worker}
    (ht : t = { s.setThread s.born { pc := .created, token := s.call.external } with
      born := s.born + 1, ctl := .stopOld, call := { s.call with created := true } }) :
    OwnFresh t ∧ s.taskRun.step (.start s.call.external) = some t.taskRun := by
  subst ht
  have hidle : s.taskRun.running = false := by
    show (s.threads (s.born - 1)).pc.live = false
    cases hl : (s.threads (s.born - 1)).pc.live with
    | false => rfl
    | true =>
      have := (h.live _ hl).2.2
      rw [hc] at this; cases this
  refine ⟨fun i hi => hf i (Nat.le_of_succ_le hi), ?_⟩
  simp only [TaskRun.step, hidle, TaskRun.start, Bool.false_or, Bool.not_true, Bool.false_eq_true, if_false]
  refine congrArg some ?_
  show _ = TaskRun.mk (Function.update s.threads s.born _ (s.born + 1 - 1)).pc.live
    (Function.update s.threads s.born _ (s.born + 1 - 1)).token (s.sources (.own (s.born + 1 - 1))).requested
  rw [Nat.add_sub_cancel, Function.update_self, hf s.born (Nat.le_refl _)]
  rfl

theorem taskRun_go {s t : Worker} (h : LifeInv s) (hf : OwnFresh s) (hst : s.goStep = some t) :
    OwnFresh t ∧ (t.taskRun = s.taskRun ∨ ∃ b, s.taskRun.step b = some t.taskRun) := by
  obtain ⟨hb, hthr, hsrc⟩ := goStep_frame hst
  rcases hsrc with heq | ⟨hj, heq⟩ | ⟨u, hu, heq⟩
  · exact taskRun_frame hf hb hthr (fun _ => by rw [heq])
  · exact taskRun_requestOwn h hf hj hb hthr heq
  · exact taskRun_frame hf hb hthr (fun _ => by rw [heq]; exact requestOwnReturns_requested hu _)

theorem taskRun_step {s t : Worker} {a : WorkerAct} (h : LifeInv s) (hf : OwnFresh s) (hst : s.step a = some t) :
    OwnFresh t ∧ (t.taskRun = s.taskRun ∨ ∃ b, s.taskRun.step b = some t.taskRun) := by
  rcases step_cases hst with ⟨hb, hthr, hsrc⟩ | ⟨hc, ht⟩ | ⟨-, hgo⟩ | ⟨i, -, hth⟩ | ⟨i, l, k, -, -, -, rfl⟩ |
    ⟨i, l, -, rfl⟩ | ⟨e, -, rfl⟩ | ⟨e, -, rfl⟩ | ⟨e, rfl⟩
  · exact taskRun_frame hf hb hthr (fun _ => by rw [hsrc])
  · obtain ⟨hf', hstart⟩ := taskRun_create h hf hc ht
    exact ⟨hf', .inr ⟨_, hstart⟩⟩
  · exact taskRun_go h hf hgo
  · refine ⟨?_, taskRun_threadStep h hth⟩
    rcases threadStep_cases hth with ⟨-, th, rfl, -, -⟩ | ⟨-, th, rfl, -, -⟩ | ⟨-, th, rfl, -, -⟩ <;> exact hf
  · exact ⟨hf, .inl (taskRun_eq rfl (setThread_same (by rfl) (by rfl) _) rfl)⟩
  · exact ⟨hf, .inl (taskRun_eq rfl (setThread_same (by rfl) (by rfl) _) rfl)⟩
  · exact taskRun_frame hf rfl rfl (fun i => requested_setSource_of_ne (fun hk => by cases hk))
  · exact taskRun_frame hf rfl rfl (fun i => requested_setSource_of_ne (fun hk => by cases hk))
  · exact taskRun_frame hf rfl rfl (fun i => requested_setSource_of_ne (fun hk => by cases hk))

/-- **Every reachable worker is, to its manager, a reachable `TaskRun`.** -/
theorem reachable_taskRun {s : Worker} (hs : machine.Reachable s) : TaskRun.machine.Reachable s.taskRun := by
  have hf : ∀ {s}, machine.Reachable s → OwnFresh s := fun hs =>
    hs.invariant_of (I := OwnFresh) (fun _ => reachable_lifeInv) (fun _ _ => rfl)
      (fun s _ _ hl hI hst => (taskRun_step (s := s) hl hI hst).1)
  exact Machine.Reachable.map taskRun .init
    (fun s _ _ hr hst => (taskRun_step (s := s) (reachable_lifeInv hr) (hf hr) hst).2) hs

end Worker
end ThreadMessaging

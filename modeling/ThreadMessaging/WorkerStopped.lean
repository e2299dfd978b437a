import ThreadMessaging.WorkerToken
/-!
# `isStopRequested` and the token of `run`

`isStopRequested` reads the worker's own source; the token of a `run` hears of two.  A stop `Reached` the run by a link
when it was requested on the link's source and its callback has been executed, or there is none between; the token is
stopped exactly when one has (`tokenStopped_iff`), the worker says so exactly when the run heard of no stop from outside
alone (`isStopRequested_eq`).
-/
namespace ThreadMessaging
namespace Worker

def isStopRequested (s : Worker) : Bool :=
  match s.thread with
  | some t => (s.sources (.own t)).requested
  | none   => false

/-- A stop was requested on the source behind a link of thread `i`, and no callback of the link is left to execute. -/
def Reached (s : Worker) (i : Nat) (l : Link) : Prop :=
  LinkRequested s.sources i (s.threads i) l ∧ ((s.threads i).callback l).open = false

/-! ## What stops a combined source -/

/-- A thread with its callbacks constructed or about to be, before it destroys them. -/
def entering : ThreadPc → Bool
  | .register _ => true
  | .run        => true
  | _           => false

/-- **The invariant of a thread's combined source**: before `run` returns it is stopped by a callback that is done. -/
structure HeardInv (sources : SourceId → StopSource) (i : Nat) (th : WorkerThread) : Prop where
  fresh : ∀ l, th.pc = .register l → th.callback l = .absent ∧ th.callback .external = .absent
  heard : th.combined = some true → entering th.pc = true →
          ∃ l, th.callback l = .done ∧ LinkRequested sources i th l

section Sources

variable {sources : SourceId → StopSource} {i : Nat} {th : WorkerThread}

theorem HeardInv.mono {sources' : SourceId → StopSource} (h : HeardInv sources i th)
    (hle : ∀ k, (sources k).requested = true → (sources' k).requested = true) : HeardInv sources' i th where
  fresh := h.fresh
  heard hc hp := let ⟨l, hl, hreq⟩ := h.heard hc hp; ⟨l, hl, hreq.mono hle⟩

theorem heardInv_of_not_entering (hp : entering th.pc = false) : HeardInv sources i th where
  fresh l hl := by rw [hl] at hp; cases hp
  heard _ he := by rw [hp] at he; cases he

theorem heardInv_begin (ht : TokenInv sources i th) (hpc : th.pc = .created) {pc : ThreadPc} {c : Option Bool}
    (hc : c ≠ some true) : HeardInv sources i { th with pc := pc, combined := c } where
  fresh l _ := by
    have habs := ht.absent (ht.early (by rw [hpc]; rfl))
    exact ⟨habs l, habs .external⟩
  heard he _ := absurd he hc

/-- A constructed callback is done only if it has stopped the combined source; one that was done before stays. -/
theorem HeardInv.construct (h : HeardInv sources i th) {l : Link} {k : SourceId} (hpc : th.pc = .register l)
    (hk : th.linkSource i l = some k) :
    HeardInv sources i { th with
      pc       := afterConstruct l
      combined := if StopCallback.construct (sources k) = .done then some true else th.combined
      callback := Function.update th.callback l (StopCallback.construct (sources k)) } := by
  obtain ⟨habs, hext⟩ := h.fresh l hpc
  refine ⟨fun l' hp => ?_, fun hc _ => ?_⟩
  · cases l with
    | external => cases hp
    | internal =>
      cases hp
      have hother : Function.update th.callback .internal (StopCallback.construct (sources k)) .external = .absent := by
        rw [Function.update_of_ne (show Link.external ≠ .internal by decide)]; exact hext
      exact ⟨hother, hother⟩
  · by_cases hd : StopCallback.construct (sources k) = .done
    · refine ⟨l, ?_, k, hk, ?_⟩
      · show Function.update th.callback l _ l = _
        rw [Function.update_self]; exact hd
      · unfold StopCallback.construct at hd
        split at hd
        · assumption
        · cases hd
    · have hc : (if StopCallback.construct (sources k) = .done then some true else th.combined) = some true := hc
      rw [if_neg hd] at hc
      obtain ⟨l', hl', hreq⟩ := h.heard hc (by rw [hpc]; rfl)
      refine ⟨l', ?_, hreq⟩
      have hne : l' ≠ l := fun he => by rw [he, habs] at hl'; cases hl'
      show Function.update th.callback l _ l' = _
      rw [Function.update_of_ne hne]; exact hl'

theorem HeardInv.take (h : HeardInv sources i th) {l : Link} (hcb : th.callback l = .registered) :
    HeardInv sources i { th with callback := Function.update th.callback l .executing } := by
  refine ⟨fun l' hp => ?_, fun hc hp => ?_⟩
  · obtain ⟨habs, hext⟩ := h.fresh l' hp
    have hother : ∀ {m}, th.callback m = .absent → Function.update th.callback l .executing m = .absent := by
      intro m hm
      rw [Function.update_of_ne (fun he => by rw [he, hcb] at hm; cases hm)]; exact hm
    exact ⟨hother habs, hother hext⟩
  · obtain ⟨l', hl', hreq⟩ := h.heard hc hp
    refine ⟨l', ?_, hreq⟩
    show Function.update th.callback l .executing l' = _
    rw [Function.update_of_ne (fun he => by rw [he, hcb] at hl'; cases hl')]; exact hl'

theorem HeardInv.execute (h : HeardInv sources i th) (ht : TokenInv sources i th) {l : Link}
    (hcb : th.callback l = .executing) :
    HeardInv sources i { th with combined := some true, callback := Function.update th.callback l .done } := by
  refine ⟨fun l' hp => ?_, fun _ _ => ⟨l, Function.update_self .., ht.exec l hcb⟩⟩
  obtain ⟨habs, hext⟩ := h.fresh l' hp
  have hother : ∀ {m}, th.callback m = .absent → Function.update th.callback l .done m = .absent := by
    intro m hm
    rw [Function.update_of_ne (fun he => by rw [he, hcb] at hm; cases hm)]; exact hm
  exact ⟨hother habs, hother hext⟩

end Sources

/-! ## Every thread, at every step -/

theorem heardInv_setThread {s : Worker} (h : ∀ j, HeardInv s.sources j (s.threads j)) {i : Nat} {th : WorkerThread}
    (hi : HeardInv s.sources i th) (j : Nat) : HeardInv s.sources j ((s.setThread i th).threads j) := by
  show HeardInv s.sources j (Function.update s.threads i th j)
  by_cases hji : j = i
  · rw [hji, Function.update_self]; exact hi
  · rw [Function.update_of_ne hji]; exact h j

theorem requested_setSource {s : Worker} {k : SourceId} {src : StopSource}
    (h : (s.sources k).requested = true → src.requested = true) (j : SourceId) (hj : (s.sources j).requested = true) :
    ((s.setSource k src).sources j).requested = true := by
  show (Function.update s.sources k src j).requested = true
  by_cases hjk : j = k
  · rw [hjk] at hj
    rw [hjk, Function.update_self]; exact h hj
  · rw [Function.update_of_ne hjk]; exact hj

theorem requested_go {s t : Worker} (hst : s.goStep = some t) (k : SourceId) (hk : (s.sources k).requested = true) :
    (t.sources k).requested = true := by
  obtain ⟨-, -, heq | ⟨-, heq⟩ | ⟨u, hu, heq⟩⟩ := goStep_frame hst
  · rw [heq]; exact hk
  · rw [heq]
    unfold requestOwn
    split
    · exact requested_setSource (fun _ => StopSource.requested_requestStop _) k hk
    · exact hk
  · rw [heq]
    unfold requestOwnReturns at hu
    split at hu
    · split at hu
      · cases hu
        exact requested_setSource (fun hr => by rw [StopSource.requested_requestReturns]; exact hr) k hk
      · cases hu
    · cases hu

theorem heardInv_threadStep {s t : Worker} {i : Nat} (hw : WorkerInv s) (h : ∀ j, HeardInv s.sources j (s.threads j))
    (hst : s.threadStep i = some t) (j : Nat) : HeardInv t.sources j (t.threads j) := by
  unfold threadStep at hst
  dsimp only at hst
  split at hst
  · rename_i hpc
    split at hst
    · split at hst
      · cases hst
        exact heardInv_setThread h (heardInv_begin (hw.token i) hpc (show some false ≠ some true by decide)) j
      · cases hst
        refine heardInv_setThread h (heardInv_begin (hw.token i) hpc ?_) j
        rw [(hw.token i).early (by rw [hpc]; rfl)]; exact nofun
    · cases hst
      refine heardInv_setThread h (heardInv_begin (hw.token i) hpc ?_) j
      rw [(hw.token i).early (by rw [hpc]; rfl)]; exact nofun
  · rename_i l hpc
    split at hst
    · rename_i k hk
      cases hst
      exact heardInv_setThread h ((h i).construct hpc hk) j
    · cases hst
  · cases hst
    refine heardInv_setThread h (heardInv_of_not_entering ?_) j
    dsimp only
    split <;> rfl
  · rename_i l hpc
    split at hst
    · cases hst
    · cases hst
      exact heardInv_setThread h (heardInv_of_not_entering (by cases l <;> rfl)) j
  · cases hst; exact heardInv_setThread h (heardInv_of_not_entering rfl) j
  · cases hst; exact heardInv_setThread h (heardInv_of_not_entering rfl) j
  · cases hst

theorem heardInv_step {s t : Worker} {a : WorkerAct} (hw : WorkerInv s) (h : ∀ j, HeardInv s.sources j (s.threads j))
    (hst : s.step a = some t) (j : Nat) : HeardInv t.sources j (t.threads j) := by
  rcases step_cases hst with ⟨-, hthr, hsrc⟩ | ⟨-, rfl⟩ | ⟨-, hgo⟩ | ⟨i, -, hth⟩ | ⟨i, l, k, -, hcb, -, rfl⟩ |
    ⟨i, l, hcb, rfl⟩ | ⟨e, -, rfl⟩ | ⟨e, -, rfl⟩ | ⟨e, rfl⟩
  · rw [hthr, hsrc]; exact h j
  · exact heardInv_setThread h (heardInv_of_not_entering rfl) j
  · rw [(goStep_frame hgo).2.1]
    exact (h j).mono (requested_go hgo)
  · exact heardInv_threadStep hw h hth j
  · exact heardInv_setThread h ((h i).take hcb) j
  · exact heardInv_setThread h ((h i).execute (hw.token i) hcb) j
  · exact (h j).mono (requested_setSource (fun _ => StopSource.requested_requestStop _))
  · exact (h j).mono (requested_setSource (fun hr => by rw [StopSource.requested_requestReturns]; exact hr))
  · exact (h j).mono (requested_setSource (fun hr => hr))

theorem reachable_heardInv {s : Worker} (hs : machine.Reachable s) (i : Nat) : HeardInv s.sources i (s.threads i) :=
  hs.invariant_of (I := fun s => ∀ i, HeardInv s.sources i (s.threads i)) (fun _ => reachable_workerInv)
    (fun _ => heardInv_of_not_entering rfl) (fun s _ _ hw hI hst => heardInv_step (s := s) hw hI hst) i

/-! ## The token and the query -/

/-- **A run's token is stopped exactly when a stop has reached it**, by either link. -/
theorem tokenStopped_iff {s : Worker} (hs : machine.Reachable s) {i : Nat} (hrun : (s.threads i).pc = .run) :
    s.tokenStopped i = true ↔ ∃ l, s.Reached i l := by
  have hw := reachable_workerInv hs
  constructor
  · intro hst
    cases hc : (s.threads i).combined with
    | none =>
      unfold tokenStopped at hst
      rw [hc] at hst
      refine ⟨.internal, ⟨.own i, rfl, hst⟩, ?_⟩
      rw [(hw.token i).absent hc]; rfl
    | some c =>
      unfold tokenStopped at hst
      rw [hc] at hst
      obtain rfl : c = true := hst
      obtain ⟨l, hl, hreq⟩ := (reachable_heardInv hs i).heard hc (by rw [hrun]; rfl)
      exact ⟨l, hreq, by rw [hl]; rfl⟩
  · rintro ⟨l, ⟨k, hk, hreq⟩, hclosed⟩
    rcases hw.tokenStopped_of_requested hrun hk hreq with hst | ⟨-, hopen⟩
    · exact hst
    · rw [hclosed] at hopen; cases hopen

/-- A thread that runs is the one of `m_thread`, once the `start` that created it has assigned it. -/
theorem thread_of_run {s : Worker} (hs : machine.Reachable s) {i : Nat} (hrun : (s.threads i).pc = .run)
    (hstarted : s.ctl.assigning = false) : s.thread = some i := by
  have hl := (reachable_workerInv hs).life
  have hborn := (hl.live i (by rw [hrun]; rfl)).1
  rcases hl.owned i (by omega) (fun he => by rw [hrun] at he; cases he) with ⟨-, hth⟩ | ⟨has, -⟩
  · exact hth
  · rw [hstarted] at has; cases has

theorem reached_internal_iff {s : Worker} {i : Nat} : s.Reached i .internal ↔
    (s.sources (.own i)).requested = true ∧ ((s.threads i).callback .internal).open = false := by
  constructor
  · rintro ⟨⟨k, hk, hreq⟩, hclosed⟩
    obtain rfl := Option.some.inj hk
    exact ⟨hreq, hclosed⟩
  · rintro ⟨hreq, hclosed⟩
    exact ⟨⟨.own i, rfl, hreq⟩, hclosed⟩

/-- **`isStopRequested` agrees with the token of the active run** exactly if no stop has reached the run from outside
that was not also requested on the worker, and none requested on the worker is still short of its callback, unless the
run has heard of one from outside; in every interleaving. -/
theorem isStopRequested_eq {s : Worker} (hs : machine.Reachable s) {i : Nat} (hrun : (s.threads i).pc = .run)
    (hstarted : s.ctl.assigning = false) : s.isStopRequested = s.tokenStopped i ↔
      (s.Reached i .external → (s.sources (.own i)).requested = true) ∧
      ((s.sources (.own i)).requesting = true → ((s.threads i).callback .internal).open = true →
        s.Reached i .external) := by
  have hown : s.isStopRequested = (s.sources (.own i)).requested := by
    unfold isStopRequested
    rw [thread_of_run hs hrun hstarted]
  have htok := tokenStopped_iff hs hrun
  rw [hown, Bool.eq_iff_iff, htok]
  constructor
  · intro heq
    refine ⟨fun hext => heq.2 ⟨_, hext⟩, fun hreq hopen => ?_⟩
    obtain ⟨l, hl⟩ := heq.1 (StopSource.requested_of_requesting hreq)
    cases l with
    | external => exact hl
    | internal =>
      rw [(reached_internal_iff.1 hl).2] at hopen
      cases hopen
  · rintro ⟨hout, hin⟩
    constructor
    · intro hreq
      cases hopen : ((s.threads i).callback .internal).open with
      | false => exact ⟨.internal, reached_internal_iff.2 ⟨hreq, hopen⟩⟩
      | true =>
        have harmed := ((reachable_workerInv hs).token i).armed .internal _ rfl hopen hreq
        exact ⟨.external, hin harmed hopen⟩
    · rintro ⟨l, hl⟩
      cases l with
      | internal => exact (reached_internal_iff.1 hl).1
      | external => exact hout hl

/-- A run with an external token, stopped by `stop()`: both say so. -/
theorem isStopRequested_eq_own : ∃ s : Worker, (s.threads 0).pc = .run ∧ (s.threads 0).token = some 5 ∧
    s.isStopRequested = true ∧ s.tokenStopped 0 = true := by
  obtain ⟨s, hrun⟩ : ∃ s, machine.runFrom machine.init
      [.start (some 5), .ready true, .go, .create true, .go, .go, .go, .thread 0, .thread 0, .thread 0, .stop, .go,
       .take 0 .internal, .execute 0 .internal] = some s := ⟨_, rfl⟩
  have hs := Machine.reachable_of_run _ hrun
  have hpc : (s.threads 0).pc = .run := by cases hrun; rfl
  have htok : (s.threads 0).token = some 5 := by cases hrun; rfl
  have hstarted : s.ctl.assigning = false := by cases hrun; rfl
  have hreq : (s.sources (.own 0)).requested = true := by cases hrun; rfl
  have hdone : (s.threads 0).callback .internal = .done := by cases hrun; rfl
  have hsaid : s.isStopRequested = true := by cases hrun; rfl
  have heq := (isStopRequested_eq hs hpc hstarted).2
    ⟨fun _ => hreq, fun _ hopen => by rw [hdone] at hopen; cases hopen⟩
  exact ⟨s, hpc, htok, hsaid, heq ▸ hsaid⟩

/-- **A run can be told to stop by a token of which `isStopRequested` knows nothing**: the one a manager passes. -/
theorem exists_isStopRequested_ne : ¬ ∀ s i, machine.Reachable s → (s.threads i).pc = .run →
    s.ctl.assigning = false → s.isStopRequested = s.tokenStopped i := by
  intro hall
  obtain ⟨s, hrun⟩ : ∃ s, machine.runFrom machine.init
      [.start (some 5), .ready true, .go, .create true, .go, .go, .go, .thread 0, .thread 0, .thread 0,
       .requestStop 5, .take 0 .external, .execute 0 .external, .requestReturns 5] = some s := ⟨_, rfl⟩
  have hpc : (s.threads 0).pc = .run := by cases hrun; rfl
  have hstarted : s.ctl.assigning = false := by cases hrun; rfl
  have hne : s.isStopRequested = false ∧ s.tokenStopped 0 = true := by cases hrun; exact ⟨rfl, rfl⟩
  have heq := hall s 0 (Machine.reachable_of_run _ hrun) hpc hstarted
  rw [hne.1, hne.2] at heq
  cases heq

end Worker
end ThreadMessaging

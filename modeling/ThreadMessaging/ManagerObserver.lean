import ThreadMessaging.ManagerTargets
import ThreadMessaging.SpScSequential
/-!
# The observer that takes the commands

`sendObserverCommand` pushes to the buffer of `m_observerIncoming`, the observer of the last `initTestChain`; the
registry `m_tasks` is another place, which `terminateAllThreads` and `stopLastThread` clear without it.  Whether that
has happened is a matter of the manager's history (`observerKept`), and an accepted command has a registered observer
exactly as that says (`sent_registered`).
-/
namespace ThreadMessaging
namespace ThreadManager

def isChain : TaskId → Bool
  | .chain _ _ => true
  | .user _    => false

/-- `m_observerIncoming`, as a task. -/
def observerTask (s : ThreadManager) : Option TaskId := s.observerIncoming.map (fun k => .chain k .observerIncoming)

def ObserverIn (s : ThreadManager) (tasks : List TaskId) : Prop := ∃ t, s.observerTask = some t ∧ t ∈ tasks

/-- Whether the last `initTestChain` has started its observer, and since then neither `terminateAllThreads` has been
called nor a `stopLastThread` that found the observer last. -/
def observerKept (h : Bool) (s : ThreadManager) (a : ManagerAct) (_ : ThreadManager) : Bool :=
  match a with
  | .initTestChain       => false
  | .start ok            =>
    match s.pc with
    | .adding (.chain k .observerIncoming :: _) => (s.startTask (.chain k .observerIncoming) ok).2
    | _                                         => h
  | .terminateAllThreads => false
  | .stopLastThread      => h && decide (s.tasks.getLast? ≠ s.observerTask)
  | _                    => h

/-! ## The tasks of a chain are registered once -/

/-- **The chains' tasks, registered and about to be**: of chains that there are, each once, and those to come of the
last one. -/
structure RegistryInv (s : ThreadManager) : Prop where
  known   : ∀ k t, .chain k t ∈ s.tasks ++ s.pending → k < s.chains
  nodup   : ((s.tasks ++ s.pending).filter isChain).Nodup
  pending : ∀ k t, .chain k t ∈ s.pending → s.observerIncoming = some k

theorem RegistryInv.shrink {s s' : ThreadManager} (h : RegistryInv s)
    (hsub : List.Sublist (s'.tasks ++ s'.pending) (s.tasks ++ s.pending)) (hch : s'.chains = s.chains)
    (hobs : s'.observerIncoming = s.observerIncoming) (hpend : ∀ t ∈ s'.pending, t ∈ s.pending) : RegistryInv s' where
  known k t ht := by rw [hch]; exact h.known k t (hsub.subset ht)
  nodup := h.nodup.sublist (hsub.filter _)
  pending k t ht := by rw [hobs]; exact h.pending k t (hpend _ ht)

theorem RegistryInv.same {s s' : ThreadManager} (h : RegistryInv s) (htasks : s'.tasks = s.tasks)
    (hpend : s'.pending = s.pending) (hch : s'.chains = s.chains) (hobs : s'.observerIncoming = s.observerIncoming) :
    RegistryInv s' :=
  h.shrink (by rw [htasks, hpend]) hch hobs (fun t ht => by rw [hpend] at ht; exact ht)

theorem addStep_registry (s : ThreadManager) (t : TaskId) (ok : Bool) :
    (s.addStep t ok).tasks = (if (s.startTask t ok).2 then s.tasks ++ [t] else s.tasks) ∧
    (s.addStep t ok).chains = s.chains ∧ (s.addStep t ok).observerIncoming = s.observerIncoming ∧
    (s.addStep t ok).cmdBuffer = s.cmdBuffer := by
  unfold addStep
  dsimp only
  split <;> exact ⟨rfl, rfl, rfl, rfl⟩

theorem restartStep_registry (s : ThreadManager) (t : TaskId) (ok : Bool) : (s.restartStep t ok).tasks = s.tasks ∧
    (s.restartStep t ok).chains = s.chains ∧ (s.restartStep t ok).observerIncoming = s.observerIncoming ∧
    (s.restartStep t ok).cmdBuffer = s.cmdBuffer := by
  unfold restartStep
  split <;> exact ⟨rfl, rfl, rfl, rfl⟩

theorem pending_adding {s : ThreadManager} {rest : List TaskId} (hpc : s.pc = .adding rest) : s.pending = rest := by
  unfold pending
  rw [hpc]

theorem nodup_map_chain (k : Nat) : (ChainTask.all.map (TaskId.chain k)).Nodup := by
  refine List.Nodup.map (fun t u htu => ?_) (by decide)
  injection htu

/-- A new chain: none of its tasks is registered, and they are five. -/
theorem RegistryInv.initTestChain {s : ThreadManager} (h : RegistryInv s) (hidle : s.pc = .idle) :
    RegistryInv { s with observerIncoming := some s.chains, chains := s.chains + 1,
                         pc := .adding (ChainTask.all.map (.chain s.chains)) } := by
  have hnone : s.pending = [] := pending_of (by rw [hidle]; exact nofun)
  have hknown : ∀ k t, .chain k t ∈ s.tasks → k < s.chains := fun k t ht =>
    h.known k t (List.mem_append_left _ ht)
  have hnew : ∀ {k t}, .chain k t ∈ ChainTask.all.map (TaskId.chain s.chains) → k = s.chains := by
    intro k t ht
    obtain ⟨u, -, hu⟩ := List.mem_map.1 ht
    cases hu; rfl
  refine ⟨fun k t ht => ?_, ?_, fun k t ht => ?_⟩
  · rcases List.mem_append.1 ht with ht | ht
    · exact Nat.lt_succ_of_lt (hknown k t ht)
    · rw [hnew ht]; exact Nat.lt_succ_self _
  · show ((s.tasks ++ ChainTask.all.map (TaskId.chain s.chains)).filter isChain).Nodup
    have hold := h.nodup
    rw [hnone, List.append_nil] at hold
    have hself : (ChainTask.all.map (TaskId.chain s.chains)).filter isChain = ChainTask.all.map (.chain s.chains) := by
      refine List.filter_eq_self.2 (fun t ht => ?_)
      obtain ⟨u, -, rfl⟩ := List.mem_map.1 ht
      rfl
    rw [List.filter_append, hself]
    refine hold.append (nodup_map_chain _) (fun t ht ht' => ?_)
    cases t with
    | chain k u =>
      have := hknown k u (List.mem_filter.1 ht).1
      rw [hnew ht'] at this
      exact Nat.lt_irrefl _ this
    | user i => cases (List.mem_filter.1 ht).2
  · show some s.chains = some k
    rw [hnew ht]

theorem RegistryInv.call {s s' : ThreadManager} {a : ManagerAct} (h : RegistryInv s) (hidle : s.pc = .idle)
    (hst : s.callStep a = some s') : RegistryInv s' := by
  have hnone : s.pending = [] := pending_of (by rw [hidle]; exact nofun)
  unfold callStep at hst
  split at hst
  · cases hst; exact h.initTestChain hidle
  · cases hst; exact h
  · rename_i i
    cases hst
    refine ⟨fun k t ht => ?_, ?_, fun k t ht => ?_⟩
    · rcases List.mem_append.1 ht with ht | ht
      · exact h.known k t (List.mem_append_left _ ht)
      · cases List.mem_singleton.1 ht
    · show ((s.tasks ++ [TaskId.user i]).filter isChain).Nodup
      have hold := h.nodup
      rw [hnone, List.append_nil] at hold
      rw [List.filter_append]
      simpa [isChain] using hold
    · cases List.mem_singleton.1 ht
  · cases hst; exact h.same rfl (by rw [hnone]; rfl) rfl rfl
  · cases hst; exact h.same rfl (by rw [hnone]; rfl) rfl rfl
  · cases hst; exact h.same rfl (by rw [hnone]; rfl) rfl rfl
  · split at hst
    · cases hst; exact h.same rfl (by rw [hnone]; rfl) rfl rfl
    · cases hst; exact h
  · cases hst
    obtain ⟨buffer, sent, heq⟩ := s.sendObserverCommand_eq _
    rw [heq]; exact h.same rfl rfl rfl rfl
  · cases hst; exact h.same rfl rfl rfl rfl
  · cases hst

theorem RegistryInv.addStep {s : ThreadManager} (h : RegistryInv s) {t : TaskId} {rest : List TaskId} (ok : Bool)
    (hpc : s.pc = .adding (t :: rest)) : RegistryInv { s.addStep t ok with pc := .adding rest } := by
  obtain ⟨htasks, hch, hobs, -⟩ := s.addStep_registry t ok
  have hpend := pending_adding hpc
  refine h.shrink ?_ hch hobs (fun u hu => ?_)
  · show List.Sublist ((s.addStep t ok).tasks ++ rest) (s.tasks ++ s.pending)
    rw [htasks, hpend]
    split
    · rw [List.append_assoc]; exact List.Sublist.refl _
    · exact (List.Sublist.refl s.tasks).append (List.sublist_cons_self t rest)
  · rw [hpend]; exact List.mem_cons_of_mem _ hu

theorem registryInv_step {s s' : ThreadManager} {a : ManagerAct} (h : RegistryInv s) (hst : s.step a = some s') :
    RegistryInv s' := by
  rcases step_cases hst with ⟨hidle, hcall⟩ | ⟨t, rest, ok, -, hpc, rfl⟩ | ⟨t, rest, ok, -, hpc, rfl⟩ |
    ⟨t, rest, clear, -, hpc, -, rfl⟩ | ⟨t, -, hpc, -, rfl⟩ | ⟨-, hpc, rfl⟩ | ⟨-, hpc, rfl⟩ | ⟨t, -, -, rfl⟩ |
    ⟨k, -, -, rfl⟩
  · exact h.call hidle hcall
  · exact h.addStep ok hpc
  · obtain ⟨htasks, hch, hobs, -⟩ := s.restartStep_registry t ok
    exact h.same htasks (pending_of (by rw [hpc]; exact nofun)).symm hch hobs
  · exact h.same rfl (pending_of (by rw [hpc]; exact nofun)).symm rfl rfl
  · refine h.shrink ?_ rfl rfl nofun
    rw [pending_of (s := s) (by rw [hpc]; exact nofun)]
    exact (List.dropLast_sublist _).append (List.Sublist.refl _)
  · refine h.same rfl ?_ rfl rfl
    rcases hpc with hpc | hpc | hpc <;> (unfold ThreadManager.pending; rw [hpc])
  · exact h.shrink (List.nil_sublist _) rfl rfl nofun
  · exact h.same rfl rfl rfl rfl
  · exact h.same rfl rfl rfl rfl

theorem reachable_registryInv {s : ThreadManager} (hs : machine.Reachable s) : RegistryInv s :=
  hs.invariant ⟨nofun, List.nodup_nil, nofun⟩ (fun s _ _ hI hst => registryInv_step (s := s) hI hst)

/-! ## The observer and the registry -/

/-- The registry that counts: without its last task while `stopLastThread` stops it, none while `terminateAllThreads`
waits. -/
def kept (s : ThreadManager) : List TaskId :=
  match s.pc with
  | .stoppingLast _ => s.tasks.dropLast
  | .joining _ true => []
  | _               => s.tasks

theorem kept_idle {s : ThreadManager} (hpc : s.pc = .idle) : s.kept = s.tasks := by
  unfold kept
  rw [hpc]

theorem kept_adding {s : ThreadManager} {rest : List TaskId} (hpc : s.pc = .adding rest) : s.kept = s.tasks := by
  unfold kept
  rw [hpc]

theorem kept_restarting {s : ThreadManager} {rest : List TaskId} (hpc : s.pc = .restarting rest) :
    s.kept = s.tasks := by
  unfold kept
  rw [hpc]

theorem kept_joining {s : ThreadManager} {rest : List TaskId} {clear : Bool} (hpc : s.pc = .joining rest clear) :
    s.kept = if clear then [] else s.tasks := by
  unfold kept
  rw [hpc]
  cases clear <;> rfl

/-- **The record tells where the observer of the commands is.** -/
def KeptInv (s : ThreadManager) (h : Bool) : Prop := h = true ↔ s.ObserverIn s.kept

theorem KeptInv.same {s s' : ThreadManager} {h : Bool} (hk : KeptInv s h)
    (hobs : s'.observerIncoming = s.observerIncoming) (hkept : s'.kept = s.kept) : KeptInv s' h := by
  unfold KeptInv ObserverIn observerTask at hk ⊢
  rw [hkept, hobs]
  exact hk

theorem observerTask_eq {s : ThreadManager} {t : TaskId} (h : s.observerTask = some t) :
    ∃ k, s.observerIncoming = some k ∧ t = .chain k .observerIncoming := by
  obtain ⟨k, hk, rfl⟩ := Option.map_eq_some_iff.1 h
  exact ⟨k, hk, rfl⟩

theorem isChain_observerTask {s : ThreadManager} {t : TaskId} (h : s.observerTask = some t) : isChain t = true := by
  obtain ⟨k, -, rfl⟩ := observerTask_eq h
  rfl

/-- **A chain's task stands in one place**: not among the registered and the pending, nor twice among the registered. -/
theorem RegistryInv.not_mem_tasks {s : ThreadManager} (h : RegistryInv s) {t : TaskId} (ht : isChain t = true)
    (hpend : t ∈ s.pending) : t ∉ s.tasks := by
  intro hmem
  have hnodup := h.nodup
  rw [List.filter_append] at hnodup
  exact List.disjoint_of_nodup_append hnodup (List.mem_filter.2 ⟨hmem, ht⟩) (List.mem_filter.2 ⟨hpend, ht⟩)

theorem RegistryInv.not_mem_dropLast {s : ThreadManager} (h : RegistryInv s) {t : TaskId} (ht : isChain t = true)
    (hlast : s.tasks.getLast? = some t) : t ∉ s.tasks.dropLast := by
  intro hmem
  have hnodup := h.nodup
  rw [List.filter_append] at hnodup
  have htasks : (s.tasks.filter isChain).Nodup := hnodup.of_append_left
  rw [← List.dropLast_append_getLast? t hlast, List.filter_append] at htasks
  exact List.disjoint_of_nodup_append htasks (List.mem_filter.2 ⟨hmem, ht⟩)
    (List.mem_filter.2 ⟨List.mem_singleton_self t, ht⟩)

/-- Apart from the calls only a start in `addTask` is recorded. -/
theorem observerKept_eq {h : Bool} {s s' : ThreadManager} {a : ManagerAct} (ha : isCall a = false)
    (hadd : ¬ ∃ t rest ok, a = .start ok ∧ s.pc = .adding (t :: rest)) : observerKept h s a s' = h := by
  cases a with
  | start ok =>
    simp only [observerKept]
    split
    · rename_i k rest hpc
      exact absurd ⟨_, _, _, rfl, hpc⟩ hadd
    · rfl
  | join => rfl
  | done => rfl
  | finish t => rfl
  | popCommand k => rfl
  | _ => cases ha

/-- A call: a new observer has not started, `terminateAllThreads` takes it, `stopLastThread` if it is the last. -/
theorem KeptInv.call {s s' : ThreadManager} {h : Bool} {a : ManagerAct} (hr : RegistryInv s) (hk : KeptInv s h)
    (hidle : s.pc = .idle) (hst : s.callStep a = some s') : KeptInv s' (observerKept h s a s') := by
  have hkept := kept_idle hidle
  unfold callStep at hst
  split at hst
  · cases hst
    refine ⟨nofun, ?_⟩
    rintro ⟨t, ht, hmem⟩
    obtain rfl : TaskId.chain s.chains .observerIncoming = t := Option.some.inj ht
    exact absurd (hr.known _ _ (List.mem_append_left _ hmem)) (Nat.lt_irrefl _)
  · cases hst; exact hk
  · cases hst; exact hk.same rfl hkept.symm
  · cases hst; exact hk.same rfl hkept.symm
  · cases hst; exact hk.same rfl hkept.symm
  · cases hst
    refine ⟨nofun, ?_⟩
    rintro ⟨t, -, hmem⟩
    cases hmem
  · split at hst
    · rename_i last hlast
      cases hst
      unfold KeptInv at hk ⊢
      rw [hkept] at hk
      simp only [observerKept, hlast, Bool.and_eq_true, decide_eq_true_eq]
      rw [hk]
      constructor
      · rintro ⟨⟨t, ht, hmem⟩, hne⟩
        refine ⟨t, ht, ?_⟩
        show t ∈ s.tasks.dropLast
        rw [← List.dropLast_append_getLast? last hlast] at hmem
        rcases List.mem_append.1 hmem with hmem | hmem
        · exact hmem
        · obtain rfl := List.mem_singleton.1 hmem
          exact absurd ht.symm hne
      · rintro ⟨t, ht, hmem⟩
        have hmem : t ∈ s.tasks.dropLast := hmem
        have ht : s.observerTask = some t := ht
        refine ⟨⟨t, ht, List.dropLast_subset _ hmem⟩, fun he => ?_⟩
        obtain rfl : last = t := Option.some.inj (he.trans ht)
        exact hr.not_mem_dropLast (isChain_observerTask ht) hlast hmem
    · rename_i hnone
      cases hst
      have htasks : s.tasks = [] := List.getLast?_eq_none_iff.1 hnone
      unfold KeptInv ObserverIn at hk ⊢
      rw [hkept, htasks] at hk ⊢
      simp only [List.not_mem_nil, and_false, exists_false, iff_false] at hk ⊢
      simp [observerKept, hk]
  · cases hst
    obtain ⟨buffer, sent, heq⟩ := s.sendObserverCommand_eq _
    rw [heq]; exact hk.same rfl rfl
  · cases hst; exact hk.same rfl rfl
  · cases hst

/-- The observer's own start decides; any other start registers another task or none. -/
theorem KeptInv.addStep {s : ThreadManager} {h : Bool} (hr : RegistryInv s) (hk : KeptInv s h) {t : TaskId}
    {rest : List TaskId} {ok : Bool} (hpc : s.pc = .adding (t :: rest)) :
    KeptInv { s.addStep t ok with pc := .adding rest }
      (observerKept h s (.start ok) { s.addStep t ok with pc := .adding rest }) := by
  obtain ⟨htasks, -, hobs, -⟩ := s.addStep_registry t ok
  have hmem : t ∈ s.pending := by rw [pending_adding hpc]; exact List.mem_cons_self ..
  unfold KeptInv at hk ⊢
  unfold ObserverIn observerTask at hk ⊢
  rw [kept_adding hpc] at hk
  rw [kept_adding rfl]
  show _ ↔ ∃ u, (s.addStep t ok).observerIncoming.map _ = some u ∧ u ∈ (s.addStep t ok).tasks
  rw [htasks, hobs]
  by_cases ht : ∃ k, t = .chain k .observerIncoming
  · obtain ⟨k, rfl⟩ := ht
    have hcur := hr.pending k _ hmem
    have hnot := hr.not_mem_tasks rfl hmem
    have hrec : observerKept h s (.start ok) { s.addStep (.chain k .observerIncoming) ok with pc := .adding rest } =
        (s.startTask (.chain k .observerIncoming) ok).2 := by
      simp [observerKept, hpc]
    rw [hrec, hcur]
    split
    · rename_i hok
      exact ⟨fun _ => ⟨_, rfl, List.mem_append_right _ (List.mem_singleton_self _)⟩, fun _ => hok⟩
    · rename_i hok
      refine ⟨fun hc => absurd hc hok, ?_⟩
      rintro ⟨u, hu, humem⟩
      obtain rfl : TaskId.chain k .observerIncoming = u := Option.some.inj hu
      exact absurd humem hnot
  · have hrec : observerKept h s (.start ok) { s.addStep t ok with pc := .adding rest } = h := by
      simp only [observerKept, hpc]
      split
      · rename_i k rest' heq
        injection heq with heq
        injection heq with heq
        exact absurd ⟨k, heq⟩ ht
      · rfl
    rw [hrec, hk]
    refine exists_congr (fun u => and_congr_right (fun hu => ?_))
    obtain ⟨k, -, rfl⟩ := Option.map_eq_some_iff.1 hu
    split
    · rw [List.mem_append, List.mem_singleton]
      exact ⟨.inl, fun hm => hm.elim id (fun he => absurd ⟨k, he.symm⟩ ht)⟩
    · exact Iff.rfl

theorem keptInv_step {s s' : ThreadManager} {h : Bool} {a : ManagerAct} (hr : RegistryInv s) (hk : KeptInv s h)
    (hst : s.step a = some s') : KeptInv s' (observerKept h s a s') := by
  by_cases ha : isCall a = true
  · obtain ⟨hidle, hcall⟩ := callStep_of_isCall ha hst
    exact hk.call hr hidle hcall
  have ha : isCall a = false := by simpa using ha
  by_cases hadd : ∃ t rest ok, a = .start ok ∧ s.pc = .adding (t :: rest)
  · obtain ⟨t, rest, ok, rfl, hpc⟩ := hadd
    simp only [step, hpc] at hst
    cases hst
    exact hk.addStep hr hpc
  rw [observerKept_eq ha hadd]
  rcases step_cases hst with ⟨-, hcall⟩ | ⟨t, rest, ok, rfl, hpc, rfl⟩ | ⟨t, rest, ok, rfl, hpc, rfl⟩ |
    ⟨t, rest, clear, -, hpc, -, rfl⟩ | ⟨t, rfl, hpc, -, rfl⟩ | ⟨-, hpc, rfl⟩ | ⟨-, hpc, rfl⟩ | ⟨t, rfl, -, rfl⟩ |
    ⟨k, -, -, rfl⟩
  · rw [isCall_of_callStep hcall] at ha; cases ha
  · exact absurd ⟨t, rest, ok, rfl, hpc⟩ hadd
  · obtain ⟨htasks, -, hobs, -⟩ := s.restartStep_registry t ok
    refine hk.same hobs ?_
    rw [kept_restarting rfl, kept_restarting hpc]
    exact htasks
  · refine hk.same rfl ?_
    rw [kept_joining rfl, kept_joining hpc]
  · refine hk.same rfl ?_
    rw [kept_idle rfl]
    unfold kept
    rw [hpc]
  · refine hk.same rfl ?_
    rw [kept_idle rfl]
    rcases hpc with hpc | hpc | hpc <;> (unfold kept; rw [hpc])
  · refine hk.same rfl ?_
    rw [kept_idle rfl, kept_joining hpc]
    rfl
  · exact hk.same rfl rfl
  · exact hk.same rfl rfl

theorem reachable_keptInv {s : ThreadManager} {h : Bool}
    (hs : (machine.withHistory false observerKept).Reachable (s, h)) : KeptInv s h := by
  refine hs.history_invariant (I := KeptInv) (fun s => reachable_registryInv) ?_
    (fun s _ _ _ hJ hI hst => keptInv_step (s := s) hJ hI hst)
  refine ⟨nofun, ?_⟩
  rintro ⟨t, ht, -⟩
  cases ht

/-! ## The buffers of the observers -/

def HoldBuffers (s : ThreadManager) : Prop := ∀ k, ∃ q, SpScRingBuffer.Holds (s.cmdBuffer k) 8 q

theorem HoldBuffers.update {s : ThreadManager} (h : HoldBuffers s) {k : Nat} {rb : SpScRingBuffer ObserverCommand}
    (hrb : ∃ q, SpScRingBuffer.Holds rb 8 q) (j : Nat) :
    ∃ q, SpScRingBuffer.Holds (Function.update s.cmdBuffer k rb j) 8 q := by
  by_cases hj : j = k
  · rw [hj, Function.update_self]; exact hrb
  · rw [Function.update_of_ne hj]; exact h j

theorem HoldBuffers.same {s s' : ThreadManager} (h : HoldBuffers s) (heq : s'.cmdBuffer = s.cmdBuffer) :
    HoldBuffers s' := by
  unfold HoldBuffers
  rw [heq]
  exact h

theorem holdBuffers_push {s : ThreadManager} (h : HoldBuffers s) (cmd : ObserverCommand) :
    HoldBuffers (s.sendObserverCommand cmd) := by
  unfold sendObserverCommand
  split
  · exact h
  · rename_i k hk
    obtain ⟨q, hq⟩ := h k
    refine h.update ?_
    by_cases hlt : q.length + 1 < 8
    · exact ⟨_, hq.push hlt⟩
    · rw [hq.push_eq, if_neg hlt]; exact ⟨q, hq⟩

theorem holdBuffers_pop {s : ThreadManager} (h : HoldBuffers s) (k : Nat) :
    HoldBuffers { s with cmdBuffer := Function.update s.cmdBuffer k ((s.cmdBuffer k).pop default).1 } := by
  obtain ⟨q, hq⟩ := h k
  refine h.update ?_
  cases q with
  | nil => rw [hq.pop_nil]; exact ⟨[], hq⟩
  | cons v q => exact ⟨q, hq.pop default⟩

/-- **A buffer changes by a push of `sendObserverCommand` or by a pop of its observer.** -/
theorem cmdBuffer_step {s s' : ThreadManager} {a : ManagerAct} (hst : s.step a = some s') :
    s'.cmdBuffer = s.cmdBuffer ∨ (∃ cmd, s' = s.sendObserverCommand cmd) ∨
    ∃ k, s' = { s with cmdBuffer := Function.update s.cmdBuffer k ((s.cmdBuffer k).pop default).1 } := by
  rcases step_cases hst with ⟨-, hcall⟩ | ⟨t, rest, ok, -, -, rfl⟩ | ⟨t, rest, ok, -, -, rfl⟩ |
    ⟨t, rest, clear, -, -, -, rfl⟩ | ⟨t, -, -, -, rfl⟩ | ⟨-, -, rfl⟩ | ⟨-, -, rfl⟩ | ⟨t, -, -, rfl⟩ | ⟨k, -, -, rfl⟩
  · unfold callStep at hcall
    split at hcall
    case h_8 cmd => cases hcall; exact .inr (.inl ⟨cmd, rfl⟩)
    case h_7 => split at hcall <;> (cases hcall; exact .inl rfl)
    all_goals first | (cases hcall; exact .inl rfl) | cases hcall
  · exact .inl (s.addStep_registry t ok).2.2.2
  · exact .inl (s.restartStep_registry t ok).2.2.2
  · exact .inl rfl
  · exact .inl rfl
  · exact .inl rfl
  · exact .inl rfl
  · exact .inl rfl
  · exact .inr (.inr ⟨k, rfl⟩)

theorem reachable_holdBuffers {s : ThreadManager} (hs : machine.Reachable s) : HoldBuffers s := by
  refine hs.invariant (I := HoldBuffers) (fun k => ⟨[], ?_⟩) (fun s a s' hI hst => ?_)
  · exact SpScRingBuffer.init_holds (n := 8) (show ({} : SpScRingBuffer ObserverCommand).init 8 = _ from rfl)
  · rcases cmdBuffer_step (s := s) hst with heq | ⟨cmd, rfl⟩ | ⟨k, rfl⟩
    · exact hI.same heq
    · exact holdBuffers_push hI cmd
    · exact holdBuffers_pop hI k

/-! ## What `sendObserverCommand` returns -/

/-- **An accepted command's observer is registered** exactly if `m_observerIncoming` has been registered and not removed
since, or there is nothing to accept: no chain or no slot; in every run. -/
theorem sent_registered {s s' : ThreadManager} {h : Bool} {cmd : ObserverCommand}
    (hs : (machine.withHistory false observerKept).Reachable (s, h))
    (hst : s.step (.sendObserverCommand cmd) = some s') :
    (∀ o, s'.sent = some (o, true) → ∃ k, o = some k ∧ .chain k .observerIncoming ∈ s'.tasks) ↔
      (h = true ∨ ∀ k, s.observerIncoming = some k → (s.cmdBuffer k).full = true) := by
  have hkept := reachable_keptInv hs
  obtain ⟨hidle, hcall⟩ := callStep_of_isCall rfl hst
  obtain rfl : s.sendObserverCommand cmd = s' := Option.some.inj hcall
  unfold KeptInv ObserverIn observerTask at hkept
  rw [kept_idle hidle] at hkept
  rw [hkept]
  unfold sendObserverCommand
  cases hobs : s.observerIncoming with
  | none => exact ⟨fun _ => .inr nofun, fun _ o ho => by cases ho⟩
  | some k =>
    obtain ⟨q, hq⟩ := reachable_holdBuffers hs.fst k
    have hfull := hq.full_eq cmd
    simp only [Option.map_some, Option.some.injEq, forall_eq', exists_eq_left', Prod.mk.injEq, and_imp]
    rw [hfull, Bool.not_eq_true']
    constructor
    · intro hall
      cases hok : ((s.cmdBuffer k).push cmd).2 with
      | false => exact .inr rfl
      | true => exact .inl (hall hok)
    · rintro (hmem | hno) hok
      · exact hmem
      · rw [hno] at hok; cases hok

/-- A command accepted while the chain is registered. -/
theorem sent_registered_chain : ∃ s : ThreadManager, s.sent = some (some 0, true) ∧
    .chain 0 .observerIncoming ∈ s.tasks := by
  obtain ⟨p, hrun⟩ : ∃ p, (machine.withHistory false observerKept).runFrom (machine.withHistory false observerKept).init
      [.initTestChain, .start true, .start false, .start true, .start true, .start true, .done] = some p := ⟨_, rfl⟩
  have hh : p.2 = true := by cases hrun; rfl
  obtain ⟨s', hst, hsent⟩ : ∃ s', p.1.step (.sendObserverCommand default) = some s' ∧
      s'.sent = some (some 0, true) := by cases hrun; exact ⟨_, rfl, rfl⟩
  obtain ⟨k, hk, hmem⟩ := (sent_registered (Machine.reachable_of_run _ hrun) hst).2 (.inl hh) _ hsent
  obtain rfl : 0 = k := Option.some.inj hk
  exact ⟨s', hsent, hmem⟩

/-- **A command can be accepted that nobody can take**: after `terminateAllThreads` the handle is still there. -/
theorem exists_sentToNobody : ¬ ∀ s s' cmd, machine.Reachable s → s.step (.sendObserverCommand cmd) = some s' →
    ∀ o, s'.sent = some (o, true) → ∃ k, o = some k ∧ .chain k .observerIncoming ∈ s'.tasks := by
  intro hall
  obtain ⟨s, hrun⟩ : ∃ s, machine.runFrom machine.init
      [.initTestChain, .start true, .start true, .start true, .start true, .start true, .done, .terminateAllThreads,
       .finish (.chain 0 .observerIncoming), .join, .finish (.chain 0 .appObserver), .join,
       .finish (.chain 0 .processing), .join, .finish (.chain 0 .transformation), .join, .finish (.chain 0 .result),
       .join, .done] = some s := ⟨_, rfl⟩
  obtain ⟨s', hst, hsent, htasks⟩ : ∃ s', s.step (.sendObserverCommand default) = some s' ∧
      s'.sent = some (some 0, true) ∧ s'.tasks = [] := by cases hrun; exact ⟨_, rfl, rfl, rfl⟩
  obtain ⟨k, -, hmem⟩ := hall s s' _ (Machine.reachable_of_run _ hrun) hst _ hsent
  rw [htasks] at hmem
  cases hmem

end ThreadManager
end ThreadMessaging

import ThreadMessaging.WorkerBase
/-!
# The worker's flag, its handle and its threads

`m_running` is true exactly while a thread is between its creation and its `markStopped`, or is about to be created;
that thread is the newest one, and every older one but the one `m_thread` still holds has exited (`LifeInv`).
-/
namespace ThreadMessaging
namespace Worker

/-- A `start` that has changed nothing yet. -/
def Untouched (s : Worker) : Prop :=
  s.thread = s.call.thread ∧ s.joinable = s.call.joinable ∧ s.running = (s.call.running && !s.call.ended)

/-- What the `start` in progress has found and done, by where it stands. -/
def CallInv (s : Worker) : Prop :=
  match s.ctl with
  | .ready           => s.Untouched ∧ s.call.ready = false ∧ s.call.sawRunning = false ∧ s.call.created = false
  | .compareExchange => s.Untouched ∧ s.call.ready = true ∧ s.call.sawRunning = false ∧ s.call.created = false
  | .create          => s.thread = s.call.thread ∧ s.joinable = s.call.joinable ∧ s.call.ready = true ∧
                        s.call.sawRunning = false ∧ (s.call.running && !s.call.ended) = false ∧ s.call.created = false
  | .createFailed    => s.thread = s.call.thread ∧ s.joinable = s.call.joinable ∧
                        (s.call.running && !s.call.ended) = false ∧ s.call.created = false
  | .startReturn ok  => ok = (s.call.ready && !s.call.sawRunning && s.call.created) ∧ (ok = false → s.Untouched)
  | c                => c.assigning = true → s.call.ready = true ∧ s.call.sawRunning = false ∧ s.call.created = true

/-- **The invariant of the flag, the handle and the threads.** -/
structure LifeInv (s : Worker) : Prop where
  unborn   : ∀ i, s.born ≤ i → (s.threads i).pc = .unborn
  live     : ∀ i, (s.threads i).pc.live = true → i + 1 = s.born ∧ s.running = true ∧ s.ctl.creating = false
  running  : s.running = true → s.ctl.creating = true ∨ ∃ i, (s.threads i).pc.live = true
  creating : s.ctl.creating = true → s.running = true
  owned    : ∀ i < s.born, (s.threads i).pc ≠ .exited →
             (s.joinable = true ∧ s.thread = some i) ∨ (s.ctl.assigning = true ∧ i + 1 = s.born)
  handle   : s.joinable = true → ∃ t, s.thread = some t ∧ t < s.born ∧ (s.ctl.assigning = true → t + 1 < s.born)
  born     : s.ctl.assigning = true → 0 < s.born
  joined   : s.ctl = .move ∨ s.ctl = .joined → s.joinable = false
  call     : s.CallInv

theorem LifeInv.frame {s t : Worker} (h : LifeInv s) (hr : t.running = s.running) (hth : t.thread = s.thread)
    (hj : t.joinable = s.joinable) (hb : t.born = s.born) (hpc : ∀ i, (t.threads i).pc = (s.threads i).pc)
    (hcr : t.ctl.creating = s.ctl.creating) (has : t.ctl.assigning = s.ctl.assigning)
    (hjn : t.ctl = .move ∨ t.ctl = .joined → s.joinable = false) (hcall : t.CallInv) : LifeInv t := by
  refine ⟨?_, ?_, ?_, ?_, ?_, ?_, ?_, ?_, hcall⟩
  · intro i hi; rw [hpc]; rw [hb] at hi; exact h.unborn i hi
  · intro i hl; rw [hpc] at hl; rw [hb, hr, hcr]; exact h.live i hl
  · intro hrun
    rw [hr] at hrun
    rcases h.running hrun with hc | ⟨i, hl⟩
    · left; rw [hcr]; exact hc
    · right; exact ⟨i, by rw [hpc]; exact hl⟩
  · intro hc; rw [hcr] at hc; rw [hr]; exact h.creating hc
  · intro i hi hne
    rw [hb] at hi; rw [hpc] at hne
    rw [hj, hth, has, hb]
    exact h.owned i hi hne
  · intro hjo
    rw [hj] at hjo
    rw [hth, has, hb]
    exact h.handle hjo
  · intro ha; rw [has] at ha; rw [hb]; exact h.born ha
  · intro hc; rw [hj]; exact hjn hc

theorem pc_setThread {s : Worker} {i : Nat} {th : WorkerThread} (h : th.pc = (s.threads i).pc) (j : Nat) :
    ((s.setThread i th).threads j).pc = (s.threads j).pc :=
  apply_update_of_eq (fun _ (th : WorkerThread) => th.pc) h j

theorem LifeInv.moveThread {s : Worker} (h : LifeInv s) {i : Nat} {th : WorkerThread}
    (hs : (s.threads i).pc.live = true) (ht : th.pc.live = true) : LifeInv (s.setThread i th) := by
  have hlive := h.live i hs
  have hself : (s.setThread i th).threads i = th := Function.update_self ..
  have hother : ∀ {j}, j ≠ i → (s.setThread i th).threads j = s.threads j := fun hj => Function.update_of_ne hj ..
  refine ⟨fun j hj => ?_, fun j hl => ?_, fun hr => .inr ⟨i, by rw [hself]; exact ht⟩, h.creating, fun j hj hne => ?_,
    h.handle, h.born, h.joined, h.call⟩
  · have hj : s.born ≤ j := hj
    rw [hother (show j ≠ i by omega)]
    exact h.unborn j hj
  · by_cases hji : j = i
    · rw [hji]; exact hlive
    · rw [hother hji] at hl; exact h.live j hl
  · by_cases hji : j = i
    · rw [hji]
      exact h.owned i (by omega) (fun he => by rw [he] at hs; cases hs)
    · rw [hother hji] at hne; exact h.owned j hj hne

theorem CallInv.markStopped {s t : Worker} (h : s.CallInv) (hctl : t.ctl = s.ctl) (hth : t.thread = s.thread)
    (hj : t.joinable = s.joinable) (hr : t.running = false) (hcall : t.call = { s.call with ended := true }) :
    t.CallInv := by
  have hu : s.Untouched → t.Untouched := by
    rintro ⟨h1, h2, -⟩
    refine ⟨?_, ?_, ?_⟩
    · rw [hth, hcall]; exact h1
    · rw [hj, hcall]; exact h2
    · rw [hr, hcall]; simp
  unfold CallInv at h ⊢
  rw [hctl]
  cases hc : s.ctl with
  | ready => rw [hc] at h; rw [hcall]; exact ⟨hu h.1, h.2⟩
  | compareExchange => rw [hc] at h; rw [hcall]; exact ⟨hu h.1, h.2⟩
  | create =>
    rw [hc] at h
    rw [hth, hj, hcall]
    exact ⟨h.1, h.2.1, h.2.2.1, h.2.2.2.1, by simp, h.2.2.2.2.2⟩
  | createFailed =>
    rw [hc] at h
    rw [hth, hj, hcall]
    exact ⟨h.1, h.2.1, by simp, h.2.2.2⟩
  | startReturn ok =>
    rw [hc] at h
    refine ⟨?_, fun hf => hu (h.2 hf)⟩
    rw [hcall]; exact h.1
  | _ => rw [hc] at h; rw [hcall]; exact h

theorem LifeInv.markStopped {s : Worker} (h : LifeInv s) {i : Nat} {th : WorkerThread}
    (hs : (s.threads i).pc = .mark) (ht : th.pc = .exit) :
    LifeInv { s.setThread i th with running := false, call := { s.call with ended := true } } := by
  have hsl : (s.threads i).pc.live = true := by rw [hs]; rfl
  have hlive := h.live i hsl
  have hself : (s.setThread i th).threads i = th := Function.update_self ..
  have hother : ∀ {j}, j ≠ i → (s.setThread i th).threads j = s.threads j := fun hj => Function.update_of_ne hj ..
  -- no other thread is live
  have hnone : ∀ j, ((s.setThread i th).threads j).pc.live = false := by
    intro j
    by_cases hji : j = i
    · rw [hji, hself, ht]; rfl
    · rw [hother hji]
      cases hl : (s.threads j).pc.live with
      | false => rfl
      | true => have := h.live j hl; omega
  have hcreating : s.ctl.creating ≠ true := by simp [hlive.2.2]
  refine ⟨fun j hj => ?_, fun j hl => ?_, nofun, fun hc => absurd hc hcreating, fun j hj hne => ?_, h.handle, h.born,
    h.joined, ?_⟩
  · have hj : s.born ≤ j := hj
    show ((s.setThread i th).threads j).pc = .unborn
    rw [hother (show j ≠ i by omega)]
    exact h.unborn j hj
  · have hl : ((s.setThread i th).threads j).pc.live = true := hl
    rw [hnone j] at hl; cases hl
  · by_cases hji : j = i
    · rw [hji]
      exact h.owned i (by omega) (fun he => by rw [he] at hs; cases hs)
    · have hne : ((s.setThread i th).threads j).pc ≠ .exited := hne
      rw [hother hji] at hne; exact h.owned j hj hne
  · exact h.call.markStopped rfl rfl rfl rfl rfl

theorem LifeInv.exit {s : Worker} (h : LifeInv s) {i : Nat} {th : WorkerThread} (hs : (s.threads i).pc = .exit)
    (ht : th.pc = .exited) : LifeInv (s.setThread i th) := by
  have hself : (s.setThread i th).threads i = th := Function.update_self ..
  have hother : ∀ {j}, j ≠ i → (s.setThread i th).threads j = s.threads j := fun hj => Function.update_of_ne hj ..
  have hsame : ∀ j, ((s.setThread i th).threads j).pc.live = (s.threads j).pc.live := by
    intro j
    by_cases hji : j = i
    · rw [hji, hself, ht, hs]; rfl
    · rw [hother hji]
  refine ⟨fun j hj => ?_, fun j hl => ?_, fun hr => ?_, h.creating, fun j hj hne => ?_, h.handle, h.born,
    h.joined, h.call⟩
  · by_cases hji : j = i
    · have := h.unborn j hj
      rw [hji, hs] at this; cases this
    · rw [hother hji]; exact h.unborn j hj
  · rw [hsame] at hl; exact h.live j hl
  · rcases h.running hr with hc | ⟨j, hl⟩
    · exact .inl hc
    · exact .inr ⟨j, by rw [hsame]; exact hl⟩
  · by_cases hji : j = i
    · rw [hji, hself, ht] at hne; exact absurd rfl hne
    · rw [hother hji] at hne; exact h.owned j hj hne

/-- **What a step of a thread can do to its place**: on to another live one, out of `mark`, or out of `exit`. -/
theorem threadStep_cases {s t : Worker} {i : Nat} (hst : s.threadStep i = some t) :
    ((s.threads i).pc.live = true ∧ ∃ th, t = s.setThread i th ∧ th.pc.live = true ∧ th.token = (s.threads i).token) ∨
    ((s.threads i).pc = .mark ∧
      ∃ th, t = { s.setThread i th with running := false, call := { s.call with ended := true } } ∧
        th.pc = .exit ∧ th.token = (s.threads i).token) ∨
    ((s.threads i).pc = .exit ∧ ∃ th, t = s.setThread i th ∧ th.pc = .exited ∧ th.token = (s.threads i).token) := by
  unfold threadStep at hst
  dsimp only at hst
  split at hst
  · rename_i hpc
    have hl : (s.threads i).pc.live = true := by rw [hpc]; rfl
    split at hst
    · split at hst
      · cases hst; exact .inl ⟨hl, _, rfl, rfl, rfl⟩
      · cases hst; exact .inl ⟨hl, _, rfl, rfl, rfl⟩
    · cases hst; exact .inl ⟨hl, _, rfl, rfl, rfl⟩
  · rename_i l hpc
    have hl : (s.threads i).pc.live = true := by rw [hpc]; rfl
    split at hst
    · cases hst; exact .inl ⟨hl, _, rfl, by cases l <;> rfl, rfl⟩
    · cases hst
  · rename_i hpc
    have hl : (s.threads i).pc.live = true := by rw [hpc]; rfl
    cases hst
    refine .inl ⟨hl, _, rfl, ?_, rfl⟩
    dsimp only
    split <;> rfl
  · rename_i l hpc
    have hl : (s.threads i).pc.live = true := by rw [hpc]; rfl
    split at hst
    · cases hst
    · cases hst; exact .inl ⟨hl, _, rfl, by cases l <;> rfl, rfl⟩
  · rename_i hpc; cases hst; exact .inr (.inl ⟨hpc, _, rfl, rfl, rfl⟩)
  · rename_i hpc; cases hst; exact .inr (.inr ⟨hpc, _, rfl, rfl, rfl⟩)
  · cases hst

theorem LifeInv.threadStep {s t : Worker} {i : Nat} (h : LifeInv s) (hst : s.threadStep i = some t) : LifeInv t := by
  rcases threadStep_cases hst with ⟨hs, th, rfl, ht, -⟩ | ⟨hs, th, rfl, ht, -⟩ | ⟨hs, th, rfl, ht, -⟩
  · exact h.moveThread hs ht
  · exact h.markStopped hs ht
  · exact h.exit hs ht

theorem LifeInv.create {s : Worker} (h : LifeInv s) (hc : s.ctl = .create) : LifeInv
    { s.setThread s.born { pc := .created, token := s.call.external } with
      born := s.born + 1, ctl := .stopOld, call := { s.call with created := true } } := by
  have hcreating : s.ctl.creating = true := by rw [hc]; rfl
  have hnone : ∀ i, (s.threads i).pc.live = true → False := by
    intro i hl
    have := (h.live i hl).2.2
    rw [hcreating] at this; cases this
  have hself : ∀ th, (s.setThread s.born th).threads s.born = th := fun _ => Function.update_self ..
  have hother : ∀ {j} th, j ≠ s.born → (s.setThread s.born th).threads j = s.threads j :=
    fun _ hj => Function.update_of_ne hj ..
  refine ⟨fun j hj => ?_, fun j hl => ?_, fun _ => .inr ⟨s.born, ?_⟩, nofun, fun j hj hne => ?_, fun hj => ?_,
    fun _ => Nat.succ_pos _, nofun, ?_⟩
  · have hj : s.born + 1 ≤ j := hj
    show ((s.setThread s.born _).threads j).pc = .unborn
    rw [hother _ (show j ≠ s.born by omega)]
    exact h.unborn j (by omega)
  · by_cases hji : j = s.born
    · rw [hji]; exact ⟨rfl, h.creating hcreating, rfl⟩
    · have hl : ((s.setThread s.born _).threads j).pc.live = true := hl
      rw [hother _ hji] at hl
      exact (hnone j hl).elim
  · show ((s.setThread s.born _).threads s.born).pc.live = true
    rw [hself]; rfl
  · have hj : j < s.born + 1 := hj
    by_cases hji : j = s.born
    · exact .inr ⟨rfl, by rw [hji]⟩
    · have hne : ((s.setThread s.born _).threads j).pc ≠ .exited := hne
      rw [hother _ hji] at hne
      rcases h.owned j (by omega) hne with ho | ⟨ha, -⟩
      · exact .inl ho
      · rw [hc] at ha; cases ha
  · obtain ⟨t, hth, ht, -⟩ := h.handle hj
    exact ⟨t, hth, Nat.lt_succ_of_lt ht, fun _ => Nat.succ_lt_succ ht⟩
  · have hcall := h.call
    unfold CallInv at hcall
    rw [hc] at hcall
    exact fun _ => ⟨hcall.2.2.1, hcall.2.2.2.1, rfl⟩

theorem LifeInv.joinOwn {s t : Worker} (h : LifeInv s) (hst : s.joinOwn = some t) {c : ControllerPc}
    (hcr : c.creating = s.ctl.creating) (has : c.assigning = s.ctl.assigning)
    (hcall : CallInv { s with joinable := false, ctl := c }) : LifeInv { t with ctl := c } := by
  unfold Worker.joinOwn at hst
  split at hst
  · rename_i k hth
    split at hst
    · rename_i hexit
      cases hst
      refine ⟨h.unborn, fun i hl => ?_, fun hr => ?_, fun hc => ?_, fun i hi hne => .inr ?_, nofun, fun ha => ?_,
        fun _ => rfl, hcall⟩
      · rw [hcr]; exact h.live i hl
      · rw [hcr]; exact h.running hr
      · rw [hcr] at hc; exact h.creating hc
      · -- every other thread had exited before
        rw [has]
        rcases h.owned i hi hne with ⟨-, hi'⟩ | hi'
        · rw [hth] at hi'
          obtain rfl := Option.some.inj hi'
          exact absurd hexit hne
        · exact hi'
      · rw [has] at ha; exact h.born ha
    · cases hst
  · cases hst

theorem not_joined {c : ControllerPc} {P : Prop} (h : (c matches .move | .joined) = false) :
    c = .move ∨ c = .joined → P := by
  rintro (rfl | rfl) <;> cases h

theorem LifeInv.goto {s t : Worker} (h : LifeInv s) {c : ControllerPc} (hctl : t.ctl = c)
    (ht : t.running = s.running ∧ t.thread = s.thread ∧ t.joinable = s.joinable ∧ t.born = s.born ∧
      t.threads = s.threads ∧ t.call = s.call)
    (hcr : c.creating = s.ctl.creating) (has : c.assigning = s.ctl.assigning)
    (hjn : c = .move ∨ c = .joined → s.joinable = false) (hcall : t.CallInv) : LifeInv t := by
  obtain ⟨hr, hth, hj, hb, hthr, -⟩ := ht
  refine h.frame hr hth hj hb (fun i => by rw [hthr]) ?_ ?_ ?_ hcall
  · rw [hctl]; exact hcr
  · rw [hctl]; exact has
  · rw [hctl]; exact hjn

theorem callInv_of_not_starting {t : Worker} (h : t.ctl.starting = false) : t.CallInv := by
  unfold CallInv
  cases hc : t.ctl <;> rw [hc] at h <;> first | (cases h; done) | (intro ha; cases ha)

theorem CallInv.assigning {s : Worker} (h : s.CallInv) (ha : s.ctl.assigning = true) :
    s.call.ready = true ∧ s.call.sawRunning = false ∧ s.call.created = true := by
  unfold CallInv at h
  cases hc : s.ctl <;> rw [hc] at h ha <;> first | exact h ha | cases ha

theorem callInv_assigning {t : Worker} (ha : t.ctl.assigning = true) (h : t.call.ready = true ∧
    t.call.sawRunning = false ∧ t.call.created = true) : t.CallInv := by
  unfold CallInv
  cases hc : t.ctl <;> rw [hc] at ha <;> first | exact fun _ => h | cases ha

theorem LifeInv.compareExchange {s : Worker} (h : LifeInv s) (hc : s.ctl = .compareExchange)
    (hrun : s.running = false) : LifeInv { s with running := true, ctl := .create } := by
  have hcall := h.call
  unfold CallInv at hcall
  rw [hc] at hcall
  obtain ⟨⟨h1, h2, h3⟩, hready, hsaw, hcr⟩ := hcall
  have hno : ∀ i, (s.threads i).pc.live = true → False := by
    intro i hl
    have := (h.live i hl).2.1
    rw [hrun] at this; cases this
  refine ⟨h.unborn, fun i hl => (hno i hl).elim, fun _ => .inl rfl, fun _ => rfl, fun i hi hne => ?_, fun hj => ?_,
    nofun, nofun, h1, h2, hready, hsaw, ?_, hcr⟩
  · rcases h.owned i hi hne with ho | ⟨ha, -⟩
    · exact .inl ho
    · rw [hc] at ha; cases ha
  · obtain ⟨k, hth, hk, -⟩ := h.handle hj
    exact ⟨k, hth, hk, nofun⟩
  · rw [← h3]; exact hrun

theorem LifeInv.createFailed {s : Worker} (h : LifeInv s) (hc : s.ctl = .createFailed) :
    LifeInv { s with running := false, ctl := .startReturn false } := by
  have hcall := h.call
  unfold CallInv at hcall
  rw [hc] at hcall
  obtain ⟨h1, h2, h3, hcr⟩ := hcall
  have hno : ∀ i, (s.threads i).pc.live = true → False := by
    intro i hl
    have := (h.live i hl).2.2
    rw [hc] at this; cases this
  refine ⟨h.unborn, fun i hl => (hno i hl).elim, nofun, nofun, fun i hi hne => ?_, fun hj => ?_, nofun, nofun, ?_,
    fun _ => ⟨h1, h2, h3.symm⟩⟩
  · rcases h.owned i hi hne with ho | ⟨ha, -⟩
    · exact .inl ho
    · rw [hc] at ha; cases ha
  · obtain ⟨k, hth, hk, -⟩ := h.handle hj
    exact ⟨k, hth, hk, nofun⟩
  · show false = (s.call.ready && !s.call.sawRunning && s.call.created)
    rw [hcr, Bool.and_false]

theorem LifeInv.move {s : Worker} (h : LifeInv s) (hc : s.ctl = .move) :
    LifeInv { s with thread := some (s.born - 1), joinable := true, ctl := .startReturn true } := by
  have ha : s.ctl.assigning = true := by rw [hc]; rfl
  have hborn := h.born ha
  have hj := h.joined (.inl hc)
  obtain ⟨hready, hsaw, hcr⟩ := h.call.assigning ha
  refine ⟨h.unborn, fun i hl => ?_, fun hr => ?_, nofun, fun i hi hne => .inl ⟨rfl, ?_⟩,
    fun _ => ⟨s.born - 1, rfl, ?_, nofun⟩, nofun, nofun, ?_, nofun⟩
  · have := h.live i hl
    exact ⟨this.1, this.2.1, rfl⟩
  · rcases h.running hr with hcr' | hl
    · rw [hc] at hcr'; cases hcr'
    · exact .inr hl
  · rcases h.owned i hi hne with ⟨hj', -⟩ | ⟨-, hi'⟩
    · rw [hj] at hj'; cases hj'
    · show some (s.born - 1) = some i
      rw [← hi']; rfl
  · exact Nat.sub_lt hborn Nat.one_pos
  · show true = (s.call.ready && !s.call.sawRunning && s.call.created)
    rw [hready, hsaw, hcr]; rfl

theorem LifeInv.go {s t : Worker} (h : LifeInv s) (hst : s.goStep = some t) : LifeInv t := by
  unfold goStep at hst
  split at hst
  · rename_i hc
    split at hst
    · cases hst
      have hcall := h.call
      unfold CallInv at hcall
      rw [hc] at hcall
      refine h.frame rfl rfl rfl rfl (fun _ => rfl) (by rw [hc]; rfl) (by rw [hc]; rfl)
        (not_joined rfl) ⟨?_, fun _ => hcall.1⟩
      simp
    · rename_i hrun
      cases hst
      exact h.compareExchange hc (by simpa using hrun)
  · rename_i hc; cases hst; exact h.createFailed hc
  · rename_i hc
    have ha : s.ctl.assigning = true := by rw [hc]; rfl
    split at hst
    · cases hst
      obtain ⟨hr, hth, hj, hb, hthr, hcl⟩ := s.requestOwn_frame
      refine h.goto rfl ⟨hr, hth, hj, hb, hthr, hcl⟩ (by rw [hc]; rfl) (by rw [hc]; rfl) (not_joined rfl)
        (callInv_assigning rfl ?_)
      show s.requestOwn.call.ready = true ∧ s.requestOwn.call.sawRunning = false ∧ s.requestOwn.call.created = true
      rw [hcl]; exact h.call.assigning ha
    · rename_i hj
      cases hst
      exact h.goto rfl ⟨rfl, rfl, rfl, rfl, rfl, rfl⟩ (by rw [hc]; rfl) (by rw [hc]; rfl)
        (fun _ => by simpa using hj) (callInv_assigning rfl (h.call.assigning ha))
  · rename_i hc
    have ha : s.ctl.assigning = true := by rw [hc]; rfl
    obtain ⟨u, hu, rfl⟩ := Option.map_eq_some_iff.1 hst
    have hf := requestOwnReturns_frame hu
    refine h.goto rfl hf (by rw [hc]; rfl) (by rw [hc]; rfl) (not_joined rfl) (callInv_assigning rfl ?_)
    show u.call.ready = true ∧ u.call.sawRunning = false ∧ u.call.created = true
    rw [hf.2.2.2.2.2]; exact h.call.assigning ha
  · rename_i hc
    have ha : s.ctl.assigning = true := by rw [hc]; rfl
    obtain ⟨u, hu, rfl⟩ := Option.map_eq_some_iff.1 hst
    exact h.joinOwn hu (by rw [hc]; rfl) (by rw [hc]; rfl) (callInv_assigning rfl (h.call.assigning ha))
  · rename_i hc; cases hst; exact h.move hc
  · rename_i ok hc
    cases hst
    exact h.goto rfl ⟨rfl, rfl, rfl, rfl, rfl, rfl⟩ (by rw [hc]; rfl) (by rw [hc]; rfl) (not_joined rfl)
      (callInv_of_not_starting rfl)
  · rename_i wait hc
    split at hst
    · cases hst
      exact h.goto rfl s.requestOwn_frame (by rw [hc]; rfl) (by rw [hc]; rfl)
        (not_joined rfl) (callInv_of_not_starting rfl)
    · cases hst
      exact h.goto rfl ⟨rfl, rfl, rfl, rfl, rfl, rfl⟩ (by rw [hc]; cases wait <;> rfl) (by rw [hc]; cases wait <;> rfl)
        (not_joined (by cases wait <;> rfl)) (callInv_of_not_starting (by cases wait <;> rfl))
  · rename_i wait hc
    obtain ⟨u, hu, rfl⟩ := Option.map_eq_some_iff.1 hst
    have hf := requestOwnReturns_frame hu
    exact h.goto rfl hf (by rw [hc]; cases wait <;> rfl) (by rw [hc]; cases wait <;> rfl)
      (not_joined (by cases wait <;> rfl)) (callInv_of_not_starting (by cases wait <;> rfl))
  · rename_i hc
    cases hst
    exact h.goto rfl ⟨rfl, rfl, rfl, rfl, rfl, rfl⟩ (by rw [hc]; rfl) (by rw [hc]; rfl) (not_joined rfl)
      (callInv_of_not_starting rfl)
  · rename_i hc
    split at hst
    · obtain ⟨u, hu, rfl⟩ := Option.map_eq_some_iff.1 hst
      exact h.joinOwn hu (by rw [hc]; rfl) (by rw [hc]; rfl) (callInv_of_not_starting rfl)
    · rename_i hj
      cases hst
      exact h.goto rfl ⟨rfl, rfl, rfl, rfl, rfl, rfl⟩ (by rw [hc]; rfl) (by rw [hc]; rfl) (fun _ => by simpa using hj)
        (callInv_of_not_starting rfl)
  · rename_i hc
    cases hst
    exact h.goto rfl ⟨rfl, rfl, rfl, rfl, rfl, rfl⟩ (by rw [hc]; rfl) (by rw [hc]; rfl) (not_joined rfl)
      (callInv_of_not_starting rfl)
  · cases hst

theorem lifeInv_init : LifeInv init :=
  ⟨fun _ _ => rfl, nofun, nofun, nofun, fun _ hi => absurd hi (Nat.not_lt_zero _), nofun, nofun, nofun,
    callInv_of_not_starting rfl⟩

theorem lifeInv_step {s t : Worker} {a : WorkerAct} (h : LifeInv s) (hst : s.step a = some t) : LifeInv t := by
  cases a with
  | start e =>
    simp only [step] at hst
    split at hst
    · rename_i hc
      cases hst
      refine h.frame rfl rfl rfl rfl (fun _ => rfl) (by rw [hc]; rfl) (by rw [hc]; rfl) (not_joined rfl)
        ⟨⟨rfl, rfl, ?_⟩, rfl, rfl, rfl⟩
      simp
    · cases hst
  | stop =>
    simp only [step] at hst
    split at hst
    · rename_i hc
      cases hst
      exact h.goto rfl ⟨rfl, rfl, rfl, rfl, rfl, rfl⟩ (by rw [hc]; rfl) (by rw [hc]; rfl) (not_joined rfl)
        (callInv_of_not_starting rfl)
    · cases hst
  | stopAndWait =>
    simp only [step] at hst
    split at hst
    · rename_i hc
      cases hst
      exact h.goto rfl ⟨rfl, rfl, rfl, rfl, rfl, rfl⟩ (by rw [hc]; rfl) (by rw [hc]; rfl) (not_joined rfl)
        (callInv_of_not_starting rfl)
    · cases hst
  | join =>
    simp only [step] at hst
    split at hst
    · rename_i hc
      cases hst
      exact h.goto rfl ⟨rfl, rfl, rfl, rfl, rfl, rfl⟩ (by rw [hc]; rfl) (by rw [hc]; rfl) (not_joined rfl)
        (callInv_of_not_starting rfl)
    · cases hst
  | ready ok =>
    simp only [step] at hst
    split at hst
    · rename_i hc
      have hcall := h.call
      unfold CallInv at hcall
      rw [hc] at hcall
      obtain ⟨hu, hready, hsaw, hcr⟩ := hcall
      cases ok with
      | true =>
        cases hst
        exact h.frame rfl rfl rfl rfl (fun _ => rfl) (by rw [hc]; rfl) (by rw [hc]; rfl)
          (not_joined rfl) ⟨hu, rfl, hsaw, hcr⟩
      | false =>
        cases hst
        refine h.frame rfl rfl rfl rfl (fun _ => rfl) (by rw [hc]; rfl) (by rw [hc]; rfl)
          (not_joined rfl) ⟨?_, fun _ => hu⟩
        show false = (s.call.ready && !s.call.sawRunning && s.call.created)
        rw [hready]; rfl
    · cases hst
  | create ok =>
    simp only [step] at hst
    split at hst
    · rename_i hc
      cases ok with
      | true => cases hst; exact h.create hc
      | false =>
        cases hst
        have hcall := h.call
        unfold CallInv at hcall
        rw [hc] at hcall
        exact h.frame rfl rfl rfl rfl (fun _ => rfl) (by rw [hc]; rfl) (by rw [hc]; rfl) (not_joined rfl)
          ⟨hcall.1, hcall.2.1, hcall.2.2.2.2⟩
    · cases hst
  | go => exact h.go hst
  | thread i => exact h.threadStep hst
  | take i l =>
    simp only [step] at hst
    split at hst
    · split at hst
      · cases hst; exact h.frame rfl rfl rfl rfl (pc_setThread rfl) rfl rfl h.joined h.call
      · cases hst
    · cases hst
  | execute i l =>
    simp only [step] at hst
    split at hst
    · cases hst; exact h.frame rfl rfl rfl rfl (pc_setThread rfl) rfl rfl h.joined h.call
    · cases hst
  | requestStop e =>
    simp only [step] at hst
    split at hst
    · cases hst; exact h.frame rfl rfl rfl rfl (fun _ => rfl) rfl rfl h.joined h.call
    · cases hst
  | requestReturns e =>
    simp only [step] at hst
    split at hst
    · cases hst; exact h.frame rfl rfl rfl rfl (fun _ => rfl) rfl rfl h.joined h.call
    · cases hst
  | release e =>
    simp only [step] at hst
    split at hst
    · cases hst
    · cases hst; exact h.frame rfl rfl rfl rfl (fun _ => rfl) rfl rfl h.joined h.call

theorem reachable_lifeInv {s : Worker} (hs : machine.Reachable s) : LifeInv s :=
  hs.invariant lifeInv_init (fun s _ _ hI hst => lifeInv_step (s := s) hI hst)

/-- **After a join nothing runs.** -/
theorem LifeInv.not_running_of_joined {s : Worker} (h : LifeInv s) (hc : s.ctl = .joined) : s.running = false := by
  cases hr : s.running with
  | false => rfl
  | true =>
    rcases h.running hr with hcr | ⟨i, hl⟩
    · rw [hc] at hcr; cases hcr
    · -- the live thread would be the handle's, which has been joined
      have hne : (s.threads i).pc ≠ .exited := by
        intro he
        rw [he] at hl; cases hl
      rcases h.owned i (by have := (h.live i hl).1; omega) hne with ⟨hj, -⟩ | ⟨ha, -⟩
      · rw [h.joined (.inr hc)] at hj; cases hj
      · rw [hc] at ha; cases ha

end Worker
end ThreadMessaging

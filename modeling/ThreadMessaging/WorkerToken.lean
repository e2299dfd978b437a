import ThreadMessaging.WorkerLife
/-!
# The tokens of a worker's runs, and the worker's lifecycle

A run's token is the thread's own, or that of `combined`, which a request on either source reaches by its callback:
executed at construction if the request came before, by the `request_stop` itself if it came later (`TokenInv`).

* `worker_lifecycle`: at most one `run` is active and the worker is running then; `start` returns true exactly when it
  should and changes nothing otherwise; after a `join` nothing runs; a `run`'s token is stopped exactly when one of its
  sources is, and `stop` requests a stop on the first of them.
-/
namespace ThreadMessaging
namespace Worker

/-- A thread that has not yet looked at its external token. -/
def early : ThreadPc → Bool
  | .unborn  => true
  | .created => true
  | _        => false

/-- A thread at a constructor or a destructor of its callbacks. -/
def linked : ThreadPc → Bool
  | .register _   => true
  | .unregister _ => true
  | _             => false

/-- A stop has been requested on the source behind a link. -/
def LinkRequested (sources : SourceId → StopSource) (i : Nat) (th : WorkerThread) (l : Link) : Prop :=
  ∃ k, th.linkSource i l = some k ∧ (sources k).requested = true

/-- **The invariant of thread `i`'s tokens.** -/
structure TokenInv (sources : SourceId → StopSource) (i : Nat) (th : WorkerThread) : Prop where
  /-- A running thread without a combined source has an empty token, or one no stop can come from. -/
  plain  : th.combined = none → th.pc = .run → ∀ e, th.token = some e → (sources (.external e)).stopPossible = false
  caused : th.combined = some true → ∃ l, LinkRequested sources i th l
  exec   : ∀ l, th.callback l = .executing → LinkRequested sources i th l
  done   : ∀ l, th.callback l = .done → th.combined = some true
  armed  : ∀ l k, th.linkSource i l = some k → (th.callback l).open = true → (sources k).requested = true →
           (sources k).requesting = true
  early  : early th.pc = true → th.combined = none
  absent : th.combined = none → ∀ l, th.callback l = .absent
  linked : linked th.pc = true → th.combined ≠ none
  first  : th.pc = .register .external → (th.callback .internal).set = true
  run    : th.pc = .run → th.combined ≠ none → ∀ l, (th.callback l).set = true

theorem LinkRequested.mono {sources sources' : SourceId → StopSource} {i : Nat} {th : WorkerThread} {l : Link}
    (h : LinkRequested sources i th l)
    (hle : ∀ k, (sources k).requested = true → (sources' k).requested = true) : LinkRequested sources' i th l := by
  obtain ⟨k, hk, hreq⟩ := h
  exact ⟨k, hk, hle k hreq⟩

section Sources

variable {sources : SourceId → StopSource} {i : Nat} {th : WorkerThread}

/-- A step on the sources, by what it does to each of them. -/
theorem TokenInv.onSources {sources' : SourceId → StopSource} (h : TokenInv sources i th)
    (hreq : ∀ k, (sources k).requested = true → (sources' k).requested = true)
    (hpos : ∀ e, (sources (.external e)).stopPossible = false → (sources' (.external e)).stopPossible = false)
    (harm : ∀ l k, th.linkSource i l = some k → (th.callback l).open = true → (sources' k).requested = true →
      ((sources k).requested = true → (sources k).requesting = true) → (sources' k).requesting = true) :
    TokenInv sources' i th where
  plain hc hpc e he := hpos e (h.plain hc hpc e he)
  caused hc := let ⟨l, hl⟩ := h.caused hc; ⟨l, hl.mono hreq⟩
  exec l hl := (h.exec l hl).mono hreq
  done := h.done
  armed l k hk ho hr := harm l k hk ho hr (h.armed l k hk ho)
  early := h.early
  absent := h.absent
  linked := h.linked
  first := h.first
  run := h.run

theorem TokenInv.requestStop (h : TokenInv sources i th) {k : SourceId}
    (halive : ∀ e, k = .external e → (sources k).alive = true) :
    TokenInv (Function.update sources k (sources k).requestStop) i th := by
  refine h.onSources (fun k' hr => ?_) (fun e hp => ?_) (fun l k' hk ho hr harm => ?_)
  · by_cases hkk : k' = k
    · rw [hkk, Function.update_self, StopSource.requested_requestStop]
    · rw [Function.update_of_ne hkk]; exact hr
  · by_cases hkk : SourceId.external e = k
    · rw [← hkk] at halive
      simp [StopSource.stopPossible, halive e rfl] at hp
    · rw [Function.update_of_ne hkk]; exact hp
  · by_cases hkk : k' = k
    · rw [hkk, Function.update_self]
      rw [hkk] at harm
      exact StopSource.requesting_requestStop harm
    · rw [Function.update_of_ne hkk] at hr ⊢; exact harm hr

/-- The return of `request_stop`: no callback on the source was left open. -/
theorem TokenInv.requestReturns (h : TokenInv sources i th) {k : SourceId}
    (hdone : ∀ l, th.linkSource i l = some k → (th.callback l).open = false) :
    TokenInv (Function.update sources k (sources k).requestReturns) i th := by
  refine h.onSources (fun k' hr => ?_) (fun e hp => ?_) (fun l k' hk ho hr harm => ?_)
  · by_cases hkk : k' = k
    · rw [hkk, Function.update_self, StopSource.requested_requestReturns]; rw [hkk] at hr; exact hr
    · rw [Function.update_of_ne hkk]; exact hr
  · by_cases hkk : SourceId.external e = k
    · rw [hkk] at hp
      rw [hkk, Function.update_self]
      unfold StopSource.stopPossible at hp ⊢
      rw [StopSource.requested_requestReturns, StopSource.alive_requestReturns]
      exact hp
    · rw [Function.update_of_ne hkk]; exact hp
  · by_cases hkk : k' = k
    · rw [hkk] at hk
      rw [hdone l hk] at ho; cases ho
    · rw [Function.update_of_ne hkk] at hr ⊢; exact harm hr

theorem TokenInv.release (h : TokenInv sources i th) {k : SourceId} :
    TokenInv (Function.update sources k { sources k with alive := false }) i th := by
  refine h.onSources (fun k' hr => ?_) (fun e hp => ?_) (fun l k' hk ho hr harm => ?_)
  · by_cases hkk : k' = k
    · rw [hkk, Function.update_self]; rw [hkk] at hr; exact hr
    · rw [Function.update_of_ne hkk]; exact hr
  · by_cases hkk : SourceId.external e = k
    · rw [hkk, Function.update_self]
      rw [hkk] at hp
      rw [StopSource.stopPossible, Bool.or_eq_false_iff] at hp ⊢
      exact ⟨hp.1, rfl⟩
    · rw [Function.update_of_ne hkk]; exact hp
  · by_cases hkk : k' = k
    · rw [hkk, Function.update_self] at hr ⊢; rw [hkk] at harm; exact harm hr
    · rw [Function.update_of_ne hkk] at hr ⊢; exact harm hr

/-! ## What a thread's own steps keep -/

theorem TokenInv.move (h : TokenInv sources i th) (pc : ThreadPc) (hearly : Worker.early pc = false)
    (hlinked : Worker.linked pc = true → th.combined ≠ none) (hreg : pc ≠ .register .external) (hrun : pc ≠ .run) :
    TokenInv sources i { th with pc := pc } where
  plain _ hp := absurd hp hrun
  caused := h.caused
  exec := h.exec
  done := h.done
  armed := h.armed
  early hp := absurd (hearly.symm.trans hp) nofun
  absent := h.absent
  linked hp := hlinked hp
  first hp := absurd hp hreg
  run hp := absurd hp hrun

theorem TokenInv.runReturns (h : TokenInv sources i th) :
    TokenInv sources i { th with pc := if th.combined.isSome then .unregister .external else .mark } := by
  by_cases hc : th.combined.isSome = true
  · rw [if_pos hc]
    exact h.move _ rfl (fun _ hn => by rw [hn] at hc; cases hc) nofun nofun
  · rw [if_neg hc]
    exact h.move _ rfl nofun nofun nofun

theorem TokenInv.construct (h : TokenInv sources i th) {l : Link} {k : SourceId} (hpc : th.pc = .register l)
    (hk : th.linkSource i l = some k) :
    TokenInv sources i { th with
      pc       := afterConstruct l
      combined := if StopCallback.construct (sources k) = .done then some true else th.combined
      callback := Function.update th.callback l (StopCallback.construct (sources k)) } := by
  have hcomb := h.linked (by rw [hpc]; rfl)
  have hne : (if StopCallback.construct (sources k) = .done then some true else th.combined) ≠ none := by
    split
    · exact nofun
    · exact hcomb
  have hset : (StopCallback.construct (sources k)).set = true := by
    unfold StopCallback.construct
    split <;> rfl
  refine ⟨fun hc => absurd hc hne, fun hc => ?_, fun l' hl => ?_, fun l' hl => ?_, fun l' k' hk' ho hr => ?_,
    fun hp => ?_, fun hc => absurd hc hne, fun _ => hne, fun hp => ?_, fun hp _ l' => ?_⟩
  · split at hc
    · rename_i hd
      refine ⟨l, k, hk, ?_⟩
      unfold StopCallback.construct at hd
      split at hd
      · assumption
      · cases hd
    · exact h.caused hc
  · by_cases hll : l' = l
    · have hl : Function.update th.callback l (StopCallback.construct (sources k)) l' = .executing := hl
      rw [hll, Function.update_self] at hl
      unfold StopCallback.construct at hl
      split at hl <;> cases hl
    · have hl : Function.update th.callback l (StopCallback.construct (sources k)) l' = .executing := hl
      rw [Function.update_of_ne hll] at hl
      exact h.exec l' hl
  · have hl : Function.update th.callback l (StopCallback.construct (sources k)) l' = .done := hl
    by_cases hll : l' = l
    · rw [hll, Function.update_self] at hl
      exact if_pos hl
    · rw [Function.update_of_ne hll] at hl
      have := h.done l' hl
      show (if _ then _ else _) = _
      rw [this, ite_self]
  · have ho : (Function.update th.callback l (StopCallback.construct (sources k)) l').open = true := ho
    have hk' : th.linkSource i l' = some k' := hk'
    by_cases hll : l' = l
    · rw [hll, Function.update_self] at ho
      rw [hll, hk] at hk'
      obtain rfl := Option.some.inj hk'
      unfold StopCallback.construct at ho
      rw [if_pos hr] at ho
      cases ho
    · rw [Function.update_of_ne hll] at ho
      exact h.armed l' k' hk' ho hr
  · cases l <;> cases hp
  · show (Function.update th.callback l (StopCallback.construct (sources k)) .internal).set = true
    cases l with
    | internal => rw [Function.update_self]; exact hset
    | external => cases hp
  · show (Function.update th.callback l (StopCallback.construct (sources k)) l').set = true
    cases l with
    | internal => cases hp
    | external =>
      cases l' with
      | internal => rw [Function.update_of_ne (by decide)]; exact h.first hpc
      | external => rw [Function.update_self]; exact hset

theorem TokenInv.take (h : TokenInv sources i th) {l : Link} {k : SourceId} (hk : th.linkSource i l = some k)
    (hcb : th.callback l = .registered) (hreq : (sources k).requesting = true) :
    TokenInv sources i { th with callback := Function.update th.callback l .executing } := by
  have hcb' : ∀ {l'}, l' ≠ l → Function.update th.callback l .executing l' = th.callback l' :=
    fun hl => Function.update_of_ne hl ..
  have hself : Function.update th.callback l .executing l = .executing := Function.update_self ..
  have hne : th.combined ≠ none := by
    intro hc
    have := h.absent hc l
    rw [hcb] at this; cases this
  refine ⟨h.plain, h.caused, fun l' hl => ?_, fun l' hl => ?_, fun l' k' hk' ho hr => ?_, h.early,
    fun hc => absurd hc hne, h.linked, fun hp => ?_, fun hp hc l' => ?_⟩
  · by_cases hll : l' = l
    · rw [hll]; exact ⟨k, hk, StopSource.requested_of_requesting hreq⟩
    · exact h.exec l' ((hcb' hll).symm.trans hl)
  · by_cases hll : l' = l
    · rw [hll] at hl
      have := hself.symm.trans hl
      cases this
    · exact h.done l' ((hcb' hll).symm.trans hl)
  · have hk' : th.linkSource i l' = some k' := hk'
    by_cases hll : l' = l
    · rw [hll, hk] at hk'
      obtain rfl := Option.some.inj hk'
      exact hreq
    · refine h.armed l' k' hk' ?_ hr
      rw [← hcb' hll]; exact ho
  · show (Function.update th.callback l .executing .internal).set = true
    by_cases hll : Link.internal = l
    · rw [hll, hself]; rfl
    · rw [hcb' hll]; exact h.first hp
  · show (Function.update th.callback l .executing l').set = true
    by_cases hll : l' = l
    · rw [hll, hself]; rfl
    · rw [hcb' hll]; exact h.run hp hc l'

theorem TokenInv.execute (h : TokenInv sources i th) {l : Link} (hcb : th.callback l = .executing) :
    TokenInv sources i { th with combined := some true, callback := Function.update th.callback l .done } := by
  have hcb' : ∀ {l'}, l' ≠ l → Function.update th.callback l .done l' = th.callback l' :=
    fun hl => Function.update_of_ne hl ..
  have hself : Function.update th.callback l .done l = .done := Function.update_self ..
  have hne : th.combined ≠ none := by
    intro hc
    have := h.absent hc l
    rw [hcb] at this; cases this
  refine ⟨nofun, fun _ => ⟨l, h.exec l hcb⟩, fun l' hl => ?_, fun _ _ => rfl, fun l' k' hk' ho hr => ?_,
    fun hp => absurd (h.early hp) hne, nofun, fun _ => nofun, fun hp => ?_, fun hp _ l' => ?_⟩
  · by_cases hll : l' = l
    · rw [hll] at hl
      have := hself.symm.trans hl
      cases this
    · exact h.exec l' ((hcb' hll).symm.trans hl)
  · have ho : (Function.update th.callback l .done l').open = true := ho
    by_cases hll : l' = l
    · rw [hll, hself] at ho; cases ho
    · rw [hcb' hll] at ho; exact h.armed l' k' hk' ho hr
  · show (Function.update th.callback l .done .internal).set = true
    by_cases hll : Link.internal = l
    · rw [hll, hself]; rfl
    · rw [hcb' hll]; exact h.first hp
  · show (Function.update th.callback l .done l').set = true
    by_cases hll : l' = l
    · rw [hll, hself]; rfl
    · rw [hcb' hll]; exact h.run hp hne l'

theorem TokenInv.destroy (h : TokenInv sources i th) {l : Link} {pc : ThreadPc} (hne : th.combined ≠ none)
    (hearly : Worker.early pc = false) (hreg : pc ≠ .register .external) (hrun : pc ≠ .run) :
    TokenInv sources i { th with pc := pc, callback := Function.update th.callback l .destroyed } := by
  have hcb' : ∀ {l'}, l' ≠ l → Function.update th.callback l .destroyed l' = th.callback l' :=
    fun hl => Function.update_of_ne hl ..
  have hself : Function.update th.callback l .destroyed l = .destroyed := Function.update_self ..
  refine ⟨fun _ hp => absurd hp hrun, h.caused, fun l' hl => ?_, fun l' hl => ?_, fun l' k' hk' ho hr => ?_,
    fun hp => absurd (hearly.symm.trans hp) nofun, fun hc => absurd hc hne, fun _ => hne, fun hp => absurd hp hreg,
    fun hp => absurd hp hrun⟩
  · by_cases hll : l' = l
    · rw [hll] at hl
      have := hself.symm.trans hl
      cases this
    · exact h.exec l' ((hcb' hll).symm.trans hl)
  · by_cases hll : l' = l
    · rw [hll] at hl
      have := hself.symm.trans hl
      cases this
    · exact h.done l' ((hcb' hll).symm.trans hl)
  · have ho : (Function.update th.callback l .destroyed l').open = true := ho
    by_cases hll : l' = l
    · rw [hll, hself] at ho; cases ho
    · rw [hcb' hll] at ho; exact h.armed l' k' hk' ho hr

theorem tokenInv_created (token : Option Nat) : TokenInv sources i { pc := .created, token := token } :=
  ⟨fun _ hp => (by cases hp), nofun, nofun, nofun, fun _ _ _ ho => (by cases ho), fun _ => rfl, fun _ _ => rfl,
    fun hp => (by cases hp), fun hp => (by cases hp), fun hp => (by cases hp)⟩

/-- A thread whose external token is empty, or one no stop can come from, runs on its own. -/
theorem TokenInv.beginPlain (h : TokenInv sources i th) (hpc : th.pc = .created)
    (hno : ∀ e, th.token = some e → (sources (.external e)).stopPossible = false) :
    TokenInv sources i { th with pc := .run } where
  plain _ _ := hno
  caused := h.caused
  exec := h.exec
  done := h.done
  armed := h.armed
  early hp := by cases hp
  absent := h.absent
  linked hp := by cases hp
  first hp := by cases hp
  run _ hne := absurd (h.early (by rw [hpc]; rfl)) hne

/-- A thread whose external token can be stopped goes on to link its sources to a combined one. -/
theorem TokenInv.beginLinked (h : TokenInv sources i th) (hpc : th.pc = .created) :
    TokenInv sources i { th with pc := .register .internal, combined := some false } := by
  have hab := h.absent (h.early (by rw [hpc]; rfl))
  refine ⟨nofun, nofun, fun l hl => ?_, fun l hl => ?_, h.armed, nofun, nofun, fun _ => nofun, nofun, nofun⟩
  · have hl : th.callback l = .executing := hl
    rw [hab l] at hl; cases hl
  · have hl : th.callback l = .done := hl
    rw [hab l] at hl; cases hl

end Sources

/-! ## Every thread, at every step -/

structure WorkerInv (s : Worker) : Prop where
  life  : LifeInv s
  token : ∀ i, TokenInv s.sources i (s.threads i)

theorem tokenInv_setThread {s : Worker} (h : ∀ j, TokenInv s.sources j (s.threads j)) {i : Nat} {th : WorkerThread}
    (hi : TokenInv s.sources i th) (j : Nat) : TokenInv s.sources j ((s.setThread i th).threads j) := by
  show TokenInv s.sources j (Function.update s.threads i th j)
  by_cases hji : j = i
  · rw [hji, Function.update_self]; exact hi
  · rw [Function.update_of_ne hji]; exact h j

/-- No callback of a thread that does not exist is open. -/
theorem WorkerInv.callbacksDone {s : Worker} (h : WorkerInv s) {k : SourceId} (hd : s.callbacksDone k) (i : Nat)
    (l : Link) (hk : (s.threads i).linkSource i l = some k) : ((s.threads i).callback l).open = false := by
  by_cases hi : i < s.born
  · cases l with
    | internal => exact (hd i hi).1 hk
    | external => exact (hd i hi).2 hk
  · have hpc := h.life.unborn i (Nat.le_of_not_lt hi)
    rw [(h.token i).absent ((h.token i).early (by rw [hpc]; rfl)) l]
    rfl

theorem tokenInv_requestOwn {s : Worker} (h : ∀ i, TokenInv s.sources i (s.threads i)) (i : Nat) :
    TokenInv s.requestOwn.sources i (s.requestOwn.threads i) := by
  unfold requestOwn
  split
  · exact (h i).requestStop nofun
  · exact h i

theorem WorkerInv.requestOwnReturns {s t : Worker} (h : WorkerInv s) (hst : s.requestOwnReturns = some t) (i : Nat) :
    TokenInv t.sources i (t.threads i) := by
  unfold Worker.requestOwnReturns at hst
  split at hst
  · split at hst
    · rename_i hd
      cases hst
      exact (h.token i).requestReturns (fun l hk => h.callbacksDone hd i l hk)
    · cases hst
  · cases hst

theorem WorkerInv.go {s t : Worker} (h : WorkerInv s) (hst : s.goStep = some t) (i : Nat) :
    TokenInv t.sources i (t.threads i) := by
  obtain ⟨-, hthr, hsrc⟩ := goStep_frame hst
  rw [hthr]
  rcases hsrc with heq | ⟨-, heq⟩ | ⟨u, hu, heq⟩
  · rw [heq]; exact h.token i
  · have hi := tokenInv_requestOwn h.token i
    rw [s.requestOwn_frame.2.2.2.2.1] at hi
    rw [heq]; exact hi
  · have hi := h.requestOwnReturns hu i
    rw [(requestOwnReturns_frame hu).2.2.2.2.1] at hi
    rw [heq]; exact hi

theorem WorkerInv.threadStep {s t : Worker} {i : Nat} (h : WorkerInv s) (hst : s.threadStep i = some t) (j : Nat) :
    TokenInv t.sources j (t.threads j) := by
  have hi := h.token i
  unfold Worker.threadStep at hst
  dsimp only at hst
  split at hst
  · rename_i hpc
    split at hst
    · rename_i e htok
      split at hst
      · cases hst
        exact tokenInv_setThread h.token (hi.beginLinked hpc) j
      · rename_i hno
        cases hst
        refine tokenInv_setThread h.token (hi.beginPlain hpc (fun e' he' => ?_)) j
        rw [htok] at he'
        obtain rfl := Option.some.inj he'
        simpa using hno
    · rename_i htok
      cases hst
      refine tokenInv_setThread h.token (hi.beginPlain hpc (fun e' he' => ?_)) j
      rw [htok] at he'; cases he'
  · rename_i l hpc
    split at hst
    · rename_i k hk
      cases hst
      exact tokenInv_setThread h.token (hi.construct hpc hk) j
    · cases hst
  · cases hst; exact tokenInv_setThread h.token hi.runReturns j
  · rename_i l hpc
    split at hst
    · cases hst
    · cases hst
      refine tokenInv_setThread h.token (hi.destroy ?_ ?_ ?_ ?_) j
      · exact hi.linked (by rw [hpc]; rfl)
      · cases l <;> rfl
      · cases l <;> exact nofun
      · cases l <;> exact nofun
  · cases hst
    exact tokenInv_setThread h.token (hi.move .exit rfl nofun nofun nofun) j
  · cases hst
    exact tokenInv_setThread h.token (hi.move .exited rfl nofun nofun nofun) j
  · cases hst

theorem workerInv_step {s t : Worker} {a : WorkerAct} (h : WorkerInv s) (hst : s.step a = some t) : WorkerInv t := by
  refine ⟨lifeInv_step h.life hst, fun j => ?_⟩
  rcases step_cases hst with ⟨-, hthr, hsrc⟩ | ⟨-, rfl⟩ | ⟨-, hgo⟩ | ⟨i, -, hth⟩ | ⟨i, l, k, hk, hcb, hreq, rfl⟩ |
    ⟨i, l, hcb, rfl⟩ | ⟨e, halive, rfl⟩ | ⟨e, hd, rfl⟩ | ⟨e, rfl⟩
  · rw [hthr, hsrc]; exact h.token j
  · exact tokenInv_setThread h.token (tokenInv_created _) j
  · exact h.go hgo j
  · exact h.threadStep hth j
  · exact tokenInv_setThread h.token ((h.token i).take hk hcb hreq) j
  · exact tokenInv_setThread h.token ((h.token i).execute hcb) j
  · exact (h.token j).requestStop (fun _ _ => halive)
  · exact (h.token j).requestReturns (fun l hk => h.callbacksDone hd j l hk)
  · exact (h.token j).release

theorem workerInv_init : WorkerInv init :=
  ⟨lifeInv_init, fun _ => ⟨fun _ hp => (by cases hp), nofun, nofun, nofun, fun _ _ _ ho => (by cases ho), fun _ => rfl,
    fun _ _ => rfl, fun hp => (by cases hp), fun hp => (by cases hp), fun hp => (by cases hp)⟩⟩

theorem reachable_workerInv {s : Worker} (hs : machine.Reachable s) : WorkerInv s :=
  hs.invariant workerInv_init (fun s _ _ hI hst => workerInv_step (s := s) hI hst)

/-- A run's token is stopped only if a stop was requested on a source of its thread. -/
theorem WorkerInv.requested_of_tokenStopped {s : Worker} (h : WorkerInv s) {i : Nat}
    (hst : s.tokenStopped i = true) : ∃ l, LinkRequested s.sources i (s.threads i) l := by
  unfold tokenStopped at hst
  split at hst
  · rename_i c hc
    rw [hst] at hc
    exact (h.token i).caused hc
  · exact ⟨.internal, .own i, rfl, hst⟩

/-- A stop requested on a source of its thread has reached a run's token, or is a `request_stop` that has yet to execute
the callback. -/
theorem WorkerInv.tokenStopped_of_requested {s : Worker} (h : WorkerInv s) {i : Nat} (hrun : (s.threads i).pc = .run)
    {l : Link} {k : SourceId} (hk : (s.threads i).linkSource i l = some k) (hreq : (s.sources k).requested = true) :
    s.tokenStopped i = true ∨
      ((s.sources k).requesting = true ∧ ((s.threads i).callback l).open = true) := by
  have hi := h.token i
  unfold tokenStopped
  cases hc : (s.threads i).combined with
  | none =>
    left
    cases l with
    | internal => obtain rfl := Option.some.inj hk; exact hreq
    | external =>
      obtain ⟨e, he, rfl⟩ := Option.map_eq_some_iff.1 hk
      have hno := hi.plain hc hrun e he
      rw [StopSource.stopPossible, hreq] at hno; cases hno
  | some c =>
    have hset := hi.run hrun (by rw [hc]; exact nofun) l
    cases hcb : (s.threads i).callback l with
    | absent => rw [hcb] at hset; cases hset
    | destroyed => rw [hcb] at hset; cases hset
    | done =>
      left
      have := hi.done l hcb
      rw [hc] at this
      exact Option.some.inj this
    | registered => exact .inr ⟨hi.armed l k hk (by rw [hcb]; rfl) hreq, rfl⟩
    | executing => exact .inr ⟨hi.armed l k hk (by rw [hcb]; rfl) hreq, rfl⟩

/-- **`stop` on a joinable thread requests a stop on that thread's own source.** -/
theorem requested_of_stop {s t : Worker} {wait : Bool} {i : Nat} (hc : s.ctl = .request wait) (hj : s.joinable = true)
    (hi : s.thread = some i) (hst : s.step .go = some t) : (t.sources (.own i)).requested = true := by
  have hst : s.goStep = some t := hst
  unfold goStep at hst
  rw [hc] at hst
  dsimp only at hst
  rw [if_pos hj] at hst
  cases hst
  exact (requestOwn_requested hi _).trans (if_pos rfl)

/-- Where no `start` is in progress, an active `run` is that of `m_thread`. -/
theorem LifeInv.handle_of_run {s : Worker} (h : LifeInv s) (hc : s.ctl.assigning = false) {i : Nat}
    (hi : (s.threads i).pc = .run) : s.joinable = true ∧ s.thread = some i := by
  have hborn := (h.live i (by rw [hi]; rfl)).1
  rcases h.owned i (by omega) (by rw [hi]; exact nofun) with hown | ⟨has, -⟩
  · exact hown
  · rw [hc] at has; cases has

/-- **The lifecycle of a worker**, in every interleaving of its controller, its threads and the requests on external
sources: (1) at most one `run` is active, and the worker is running then; (2) `start` returns true exactly when
`isReadyToStart` held, the worker was not running and the thread was created, and one that returns false leaves the
handle, and the running flag up to the thread's own end; (3) when `join` or `stopAndWait` returns nothing runs; (4) a
run's token is stopped only if a stop was requested on one of its two sources, and a stop requested there reaches it
before the `request_stop` returns; `stop` and `stopAndWait` request one on the own source of the thread that is
joinable, which is that of any active `run`. -/
theorem worker_lifecycle {s : Worker} (hs : machine.Reachable s) :
    ((∀ i j, (s.threads i).pc = .run → (s.threads j).pc = .run → i = j) ∧
      ∀ i, (s.threads i).pc = .run → s.running = true) ∧
    (∀ ok, s.ctl = .startReturn ok → ok = (s.call.ready && !s.call.sawRunning && s.call.created) ∧
      (ok = false → s.thread = s.call.thread ∧ s.joinable = s.call.joinable ∧
        s.running = (s.call.running && !s.call.ended))) ∧
    (s.ctl = .joined → s.running = false ∧ ∀ i, (s.threads i).pc ≠ .run) ∧
    (∀ i, (s.threads i).pc = .run →
      (s.tokenStopped i = true →
        ∃ l k, (s.threads i).linkSource i l = some k ∧ (s.sources k).requested = true) ∧
      ∀ l k, (s.threads i).linkSource i l = some k → (s.sources k).requested = true →
        s.tokenStopped i = true ∨
          ((s.sources k).requesting = true ∧ ((s.threads i).callback l).open = true)) ∧
    (∀ wait t, s.ctl = .request wait → s.step .go = some t →
      (s.joinable = true → ∃ i, s.thread = some i ∧ (t.sources (.own i)).requested = true) ∧
      ∀ i, (s.threads i).pc = .run → (t.sources (.own i)).requested = true) := by
  have h := reachable_workerInv hs
  have hlive : ∀ i, (s.threads i).pc = .run → i + 1 = s.born ∧ s.running = true := by
    intro i hi
    have := h.life.live i (by rw [hi]; rfl)
    exact ⟨this.1, this.2.1⟩
  refine ⟨⟨fun i j hi hj => ?_, fun i hi => (hlive i hi).2⟩, fun ok hc => ?_, fun hc => ?_,
    fun i hi => ⟨fun hst => ?_, ?_⟩, fun wait t hc hst => ⟨fun hj => ?_, fun i hi => ?_⟩⟩
  · have := (hlive i hi).1
    have := (hlive j hj).1
    omega
  · have hcall := h.life.call
    unfold CallInv at hcall
    rw [hc] at hcall
    exact hcall
  · have hno : s.running = false := h.life.not_running_of_joined hc
    refine ⟨hno, fun i hi => ?_⟩
    have := (hlive i hi).2
    rw [hno] at this; cases this
  · obtain ⟨l, k, hk, hreq⟩ := h.requested_of_tokenStopped hst
    exact ⟨l, k, hk, hreq⟩
  · exact fun l k hk hreq => h.tokenStopped_of_requested hi hk hreq
  · obtain ⟨i, hi, -⟩ := h.life.handle hj
    exact ⟨i, hi, requested_of_stop hc hj hi hst⟩
  · obtain ⟨hj, hthread⟩ := h.life.handle_of_run (by rw [hc]; rfl) hi
    exact requested_of_stop hc hj hthread hst

/-- A stop requested before the thread exists, on an external source that is then passed to `start`: the run is told to
stop from its first step on.  A `stop` while a run is active that has both callbacks: the run is told by the time the
request returns. -/
theorem worker_lifecycle_early :
    (∃ s : Worker, (s.threads 0).pc = .run ∧ s.tokenStopped 0 = true ∧ s.running = true) ∧
    ∃ s t u : Worker, (s.threads 0).pc = .run ∧ s.tokenStopped 0 = false ∧ s.step .go = some t ∧
      (t.sources (.own 0)).requested = true ∧ t.tokenStopped 0 = false ∧
      machine.runFrom t [.take 0 .internal, .execute 0 .internal, .go] = some u ∧ u.ctl = .stopped ∧
      u.tokenStopped 0 = true := by
  constructor
  · obtain ⟨s, hrun⟩ : ∃ s, machine.runFrom machine.init
        [.requestStop 5, .requestReturns 5, .start (some 5), .ready true, .go, .create true, .go, .go, .go, .thread 0,
         .thread 0, .thread 0] = some s := ⟨_, rfl⟩
    have hpc : (s.threads 0).pc = .run := by cases hrun; rfl
    have htok : (s.threads 0).token = some 5 := by cases hrun; rfl
    have hreq : (s.sources (.external 5)).requested = true := by cases hrun; rfl
    have hret : (s.sources (.external 5)).requesting = false := by cases hrun; rfl
    obtain ⟨⟨-, hrunning⟩, -, -, htoken, -⟩ := worker_lifecycle (Machine.reachable_of_run _ hrun)
    refine ⟨s, hpc, ?_, hrunning 0 hpc⟩
    have hlink : (s.threads 0).linkSource 0 .external = some (.external 5) := by rw [WorkerThread.linkSource, htok]; rfl
    rcases (htoken 0 hpc).2 .external (.external 5) hlink hreq with hst | ⟨hbusy, -⟩
    · exact hst
    · rw [hret] at hbusy; cases hbusy
  · obtain ⟨s, hrun⟩ : ∃ s, machine.runFrom machine.init
        [.start (some 5), .ready true, .go, .create true, .go, .go, .go, .thread 0, .thread 0, .thread 0, .stop]
        = some s := ⟨_, rfl⟩
    have hs : machine.Reachable s := Machine.reachable_of_run _ hrun
    obtain ⟨t, hgo⟩ : ∃ t, s.step .go = some t := by cases hrun; exact ⟨_, rfl⟩
    obtain ⟨u, hend⟩ : ∃ u, machine.runFrom t [.take 0 .internal, .execute 0 .internal, .go] = some u := by
      cases hrun; cases hgo; exact ⟨_, rfl⟩
    have hpc : (s.threads 0).pc = .run := by cases hrun; rfl
    have hreq : (t.sources (.own 0)).requested = true :=
      ((worker_lifecycle hs).2.2.2.2 false t (by cases hrun; rfl) hgo).2 0 hpc
    have hpc' : (u.threads 0).pc = .run := by cases hrun; cases hgo; cases hend; rfl
    have hreq' : (u.sources (.own 0)).requested = true := by cases hrun; cases hgo; cases hend; rfl
    have hret : (u.sources (.own 0)).requesting = false := by cases hrun; cases hgo; cases hend; rfl
    have hu : machine.Reachable u := (Machine.Reachable.step (M := machine) .go hs hgo).runFrom _ hend
    refine ⟨s, t, u, hpc, by cases hrun; rfl, hgo, hreq, by cases hrun; cases hgo; rfl, hend,
      by cases hrun; cases hgo; cases hend; rfl, ?_⟩
    rcases ((worker_lifecycle hu).2.2.2.1 0 hpc').2 .internal (.own 0) rfl hreq' with hst | ⟨hbusy, -⟩
    · exact hst
    · rw [hret] at hbusy; cases hbusy

end Worker
end ThreadMessaging

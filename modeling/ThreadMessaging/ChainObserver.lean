import ThreadMessaging.ChainFlow
import ThreadMessaging.ObserverLoop
/-!
# The chain's observer and its loop

In the chain an iteration of the observer is many steps, with those of the other threads in between.  Wherever its
thread stands, its members are those of its loop between two iterations, or those of an iteration that is under way
(`MembersAt`); so every reachable chain's observer is that of a reachable `ObserverLoop` (`reachable_observerLoop`).
-/
namespace ThreadMessaging
namespace Chain

/-- What the observer's members are at each place of an iteration. -/
def MembersAt (l : ObserverLoop) (it : Iteration) (o : Observer) : ChainPc → Prop
  | .autoExit   => o = l.observer.commanded addSeconds it
  | .pauseCheck => o = l.observer.checked addSeconds it
  | .emit       => o = l.observer.checked addSeconds it ∧ o.pauseUntil ≤ it.pauseClock
  | _           => o = l.observer

/-- **The chain's observer is in the loop `l`**; what it has yet to send is of what its last iteration sends. -/
structure Tracks (s : Chain) (l : ObserverLoop) : Prop where
  members : ∃ it, MembersAt l it s.observer (s.pc .observerIncoming)
  count   : s.count = l.count
  sends   : s.outbox .observerIncoming <:+ l.sends

theorem Tracks.same {s s' : Chain} {l : ObserverLoop} (h : s.Tracks l)
    (hpc : s'.pc .observerIncoming = s.pc .observerIncoming) (hobs : s'.observer = s.observer)
    (hcount : s'.count = s.count) : s'.Tracks l := by
  refine ⟨?_, hcount.trans h.count, ?_⟩
  · rw [hpc, hobs]
    exact h.members
  · unfold outbox
    rw [hpc]
    exact h.sends

theorem LinkInv.eq_observer {s : Chain} (hl : LinkInv s) {t : ChainTask} {c : ChainPc} (hpc : s.pc t = c)
    (hc : placeOf t c = decide (t = .observerIncoming)) : t = .observerIncoming := by
  have hplace := hl.places t
  rw [hpc, hc] at hplace
  exact of_decide_eq_true hplace

/-- Another thread's step, which is none at the observer's places. -/
theorem goStep_other {s s' : Chain} {t : ChainTask} {now : TimePoint} (hl : LinkInv s) (ht : t ≠ .observerIncoming)
    (hst : s.goStep t now = some s') : s'.pc .observerIncoming = s.pc .observerIncoming ∧
    s'.observer = s.observer ∧ s'.count = s.count := by
  have hother : ∀ c, Function.update s.pc t c .observerIncoming = s.pc .observerIncoming :=
    fun c => Function.update_of_ne (Ne.symm ht) ..
  unfold goStep at hst
  split at hst
  · split at hst
    · obtain ⟨m, -, rfl⟩ := Option.map_eq_some_iff.1 hst
      exact ⟨hother _, rfl, rfl⟩
    · unfold waitStep at hst
      split at hst
      · exact absurd rfl ht
      · obtain ⟨u, hu, rfl⟩ := Option.map_eq_some_iff.1 hst
        obtain ⟨q, -, rfl⟩ := queueStep_eq hu
        exact ⟨hother _, rfl, rfl⟩
  · split at hst
    · obtain ⟨u, hu, rfl⟩ := Option.map_eq_some_iff.1 hst
      obtain ⟨q, -, rfl⟩ := queueStep_eq hu
      exact ⟨hother _, rfl, rfl⟩
    · cases hst
  · cases hst
    exact ⟨hother _, rfl, rfl⟩
  · cases hst
    unfold handleStep
    split
    · exact ⟨hother _, rfl, rfl⟩
    · exact ⟨hother _, rfl, rfl⟩
  · cases hst
    exact ⟨hother _, rfl, rfl⟩
  · obtain ⟨u, hu, rfl⟩ := Option.map_eq_some_iff.1 hst
    obtain ⟨q, -, rfl⟩ := queueStep_eq hu
    exact ⟨hother _, rfl, rfl⟩
  · rename_i hpc
    exact absurd (hl.eq_observer hpc rfl) ht
  · rename_i hpc
    exact absurd (hl.eq_observer hpc rfl) ht
  · rename_i hpc
    exact absurd (hl.eq_observer hpc rfl) ht
  · rename_i hpc
    exact absurd (hl.eq_observer hpc rfl) ht
  · rename_i hpc
    exact absurd (hl.eq_observer hpc rfl) ht
  · rename_i hpc
    exact absurd (hl.eq_observer hpc rfl) ht
  · cases hst

theorem Tracks.of_pc {s' : Chain} {l : ObserverLoop} {c : ChainPc} (hpc : s'.pc .observerIncoming = c) (it : Iteration)
    (hmem : MembersAt l it s'.observer c) (hcount : s'.count = l.count) (hsends : outgoing c <:+ l.sends) :
    s'.Tracks l := by
  refine ⟨⟨it, hpc ▸ hmem⟩, hcount, ?_⟩
  unfold outbox
  rw [hpc]
  exact hsends

/-- The observer's thread has gone to another place. -/
theorem Tracks.place {s s' : Chain} {l : ObserverLoop} {c : ChainPc}
    (hpc : s'.pc = Function.update s.pc .observerIncoming c) (it : Iteration) (hmem : MembersAt l it s'.observer c)
    (hcount : s'.count = l.count) (hsends : outgoing c <:+ l.sends) : s'.Tracks l :=
  .of_pc (by rw [hpc, Function.update_self]) it hmem hcount hsends

/-- The pause check ends the iteration of a paused observer. -/
theorem Tracks.pauseCheck {s : Chain} {l : ObserverLoop} (h : s.Tracks l) (hpc : s.pc .observerIncoming = .pauseCheck)
    (now : TimePoint) :
    (s.setPc .observerIncoming (if s.observer.paused now then .head else .emit)).Tracks l ∨
      ∃ it, (s.setPc .observerIncoming (if s.observer.paused now then .head else .emit)).Tracks
        (l.iterate addSeconds it) := by
  obtain ⟨it, hmem⟩ := h.members
  rw [hpc] at hmem
  have hchecked : s.observer = l.observer.checked addSeconds { it with pauseClock := now } := hmem
  by_cases hpaused : now < s.observer.pauseUntil
  · rw [if_pos (show s.observer.paused now = true from decide_eq_true hpaused)]
    refine .inr ⟨{ it with pauseClock := now }, ?_⟩
    rw [ObserverLoop.iterate_of_paused (hchecked ▸ hpaused)]
    exact .place (s := s) rfl it hchecked h.count (List.nil_suffix ..)
  · rw [if_neg (by simpa [Observer.paused] using hpaused)]
    exact .inl (.place (s := s) rfl { it with pauseClock := now } ⟨hchecked, not_lt.1 hpaused⟩ h.count
      (List.nil_suffix ..))

/-- The event ends the iteration of one that is not. -/
theorem Tracks.emit {s : Chain} {l : ObserverLoop} (h : s.Tracks l) (hpc : s.pc .observerIncoming = .emit)
    (now : TimePoint) : ∃ it, Tracks { s.setPc .observerIncoming (.sending (observerSends (s.count + 1) now)) with
      count := s.count + 1 } (l.iterate addSeconds it) := by
  obtain ⟨it, hmem⟩ := h.members
  rw [hpc] at hmem
  obtain ⟨hmem, hdue⟩ := hmem
  have hchecked : s.observer = l.observer.checked addSeconds { it with sendClock := now } := hmem
  refine ⟨{ it with sendClock := now }, ?_⟩
  rw [ObserverLoop.iterate_of_due (hchecked ▸ hdue), ← h.count]
  exact .place (s := s) rfl it hchecked rfl List.suffix_rfl

/-- **A step of the observer's thread**: inside an iteration it makes the next of its reads, at the end of one the loop
has gone through it. -/
theorem tracks_go {s s' : Chain} {l : ObserverLoop} {now : TimePoint} (hl : LinkInv s) (h : s.Tracks l)
    (hst : s.goStep .observerIncoming now = some s') :
    s'.Tracks l ∨ ∃ it, s'.Tracks (l.iterate addSeconds it) := by
  have hplace := hl.places .observerIncoming
  obtain ⟨it, hmem⟩ := h.members
  have hcount := h.count
  have hsends := h.sends
  unfold outbox at hsends
  unfold goStep at hst
  split at hst
  · rename_i hpc
    rw [hpc] at hmem
    split at hst
    · obtain ⟨m, -, rfl⟩ := Option.map_eq_some_iff.1 hst
      exact .inl (.place (s := s) rfl it hmem hcount (List.nil_suffix ..))
    · obtain ⟨p, -, rfl⟩ := Option.map_eq_some_iff.1 hst
      exact .inl (.place (s := s) rfl it hmem hcount (List.nil_suffix ..))
  · rename_i hpc
    rw [hpc] at hplace; cases hplace
  · rename_i hpc
    rw [hpc] at hplace; cases hplace
  · rename_i hpc
    rw [hpc] at hplace; cases hplace
  · rename_i hpc
    rw [hpc] at hmem
    cases hst
    exact .inl (.place (s := s) rfl it hmem hcount (List.nil_suffix ..))
  · rename_i r p rest hpc
    rw [hpc] at hmem hsends
    obtain ⟨u, hu, rfl⟩ := Option.map_eq_some_iff.1 hst
    obtain ⟨q, -, rfl⟩ := queueStep_eq hu
    exact .inl (.place (s := s) rfl it hmem hcount ((List.suffix_cons (r, p) rest).trans hsends))
  · rename_i hpc
    rw [hpc] at hmem
    split at hst
    · obtain ⟨p, -, rfl⟩ := Option.map_eq_some_iff.1 hst
      exact .inl (.place (s := s) rfl it hmem hcount (List.nil_suffix ..))
    · cases hst
  · rename_i cmd hpc
    rw [hpc] at hmem
    cases hst
    refine .inl (.place (s := s) rfl ⟨some cmd, now, 0, 0, 0⟩ ?_ hcount (List.nil_suffix ..))
    show s.observer.applyCommand cmd now = _
    rw [show s.observer = l.observer from hmem]
    rfl
  · rename_i hpc
    rw [hpc] at hmem
    cases hst
    exact .inl (.place (s := s) rfl ⟨none, 0, 0, 0, 0⟩ hmem hcount (List.nil_suffix ..))
  · rename_i hpc
    rw [hpc] at hmem
    cases hst
    refine .inl (.place (s := s) rfl { it with exitClock := now } ?_ hcount (List.nil_suffix ..))
    show s.observer.autoExit now = _
    rw [show s.observer = l.observer.commanded addSeconds it from hmem]
    rfl
  · rename_i hpc
    cases hst
    exact h.pauseCheck hpc now
  · rename_i hpc
    cases hst
    exact .inr (h.emit hpc now)
  · cases hst

theorem tracks_step {s s' : Chain} {l : ObserverLoop} {a : ChainAct} (hl : LinkInv s) (h : s.Tracks l)
    (hst : s.step a = some s') : s'.Tracks l ∨ ∃ b, s'.Tracks (l.step addSeconds b) := by
  rcases step_cases hst with ⟨b, m, -, -, rfl⟩ | ⟨b, p, -, rfl⟩ | ⟨t, now, hgo⟩ |
    ⟨t, target, r, rest, q, hpc, -, rfl⟩ | ⟨t, q, -, -, rfl⟩ | ⟨t, timedOut, q, -, -, rfl⟩
  · by_cases hstart : (!s.manager.running (taskId .observerIncoming) && m.running (taskId .observerIncoming)) = true
    · -- a new thread of the observer: its `run` begins, its members are what they were
      have hexited : s.pc .observerIncoming = .exited := by
        simp only [Bool.and_eq_true, Bool.not_eq_true'] at hstart
        exact hl.exited _ hstart.1
      obtain ⟨it, hmem⟩ := h.members
      rw [hexited] at hmem
      exact .inr ⟨.run, .of_pc (if_pos hstart) it hmem (if_pos hstart) (List.nil_suffix ..)⟩
    · exact .inl (h.same (if_neg hstart) rfl (if_neg hstart))
  · exact .inl (h.same rfl rfl rfl)
  · by_cases ht : t = .observerIncoming
    · subst ht
      rcases tracks_go hl h hgo with h' | ⟨it, h'⟩
      · exact .inl h'
      · exact .inr ⟨.iterate it, h'⟩
    · obtain ⟨hpc, hobs, hcount⟩ := goStep_other hl ht hgo
      exact .inl (h.same hpc hobs hcount)
  · left
    by_cases ht : t = .observerIncoming
    · subst ht
      obtain ⟨⟨it, hmem⟩, hcount, hsends⟩ := h
      unfold outbox at hsends
      rw [hpc] at hmem hsends
      exact .place (s := s) rfl it hmem hcount hsends
    · exact h.same (Function.update_of_ne (Ne.symm ht) ..) rfl rfl
  · exact .inl (h.same rfl rfl rfl)
  · exact .inl (h.same rfl rfl rfl)

/-- **The observer of every reachable chain is in its loop**, by whatever steps of whatever threads it got there, and
its iterations have a log. -/
theorem reachable_observerLoop {s : Chain} (hs : machine.Reachable s) : ∃ l log,
    ((ObserverLoop.machine addSeconds).withHistory [] (ObserverLoop.logged addSeconds)).Reachable (l, log) ∧
      s.Tracks l := by
  have hsim : ∃ l, (ObserverLoop.machine addSeconds).Reachable l ∧ s.Tracks l := by
    refine hs.simulated ⟨⟨⟨none, 0, 0, 0, 0⟩, rfl⟩, rfl, List.nil_suffix ..⟩ (fun s l a s' hr h hst => ?_)
    have hl : LinkInv s := hr.invariant linkInv_init (fun s _ _ hI hst => linkInv_step (s := s) hI hst)
    rcases tracks_step hl h hst with h' | ⟨b, h'⟩
    · exact .inl h'
    · exact .inr ⟨b, _, rfl, h'⟩
  obtain ⟨l, hl, htracks⟩ := hsim
  obtain ⟨log, hlog⟩ := hl.exists_history [] (ObserverLoop.logged addSeconds)
  exact ⟨l, log, hlog, htracks⟩

end Chain
end ThreadMessaging

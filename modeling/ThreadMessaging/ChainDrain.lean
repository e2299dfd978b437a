import ThreadMessaging.ChainPayloads
/-!
# No message is stuck in the chain

A thread that waits for a message waits at its own queue, one that is about to notify does so at the queue it has pushed
to, and otherwise a thread is inside no queue's call (`synced_step`).  So whatever the four threads behind the observer
are doing, one of them that has something to do can go on (`exists_productive`), and each step it takes brings the
messages nearer to the end of the chain (`advances_of_step`): what the threads lose by a Send is what the message weighs
in the next queue, but for a step.
-/
namespace ThreadMessaging
namespace Chain

/-! ## Where a thread stands at each queue -/

def inWaitFor : QueuePc Payload → Bool
  | .blocked .waitFor => true
  | .woken .waitFor   => true
  | .ret _ _ _        => true
  | _                 => false

/-- Where thread `t` stands at the queue of `r`, by where it stands in its loop. -/
def AtQueue (t r : ChainTask) : ChainPc → QueuePc Payload → Prop
  | .waiting       => fun q => if r = t then inWaitFor q = true else q = .idle
  | .notifying u _ => fun q => q = if r = u then .notify else .idle
  | _              => fun q => q = .idle

def Synced (s : Chain) : Prop := ∀ t r, AtQueue t r (s.pc t) ((s.queue r).pc t)

/-- The places in the loop that are outside every queue's calls. -/
def outside : ChainPc → Bool
  | .waiting       => false
  | .notifying _ _ => false
  | _              => true

theorem atQueue_outside {t r : ChainTask} {c : ChainPc} {q : QueuePc Payload} (hc : outside c = true) :
    AtQueue t r c q ↔ q = .idle := by
  cases c <;> first | exact Iff.rfl | cases hc

theorem Turns.outside {c c' : ChainPc} (h : Turns c c') : Chain.outside c = true ∧ Chain.outside c' = true := by
  cases h <;> exact ⟨rfl, rfl⟩

variable {s s' : Chain}

theorem Synced.idle (h : Synced s) {t : ChainTask} (hc : outside (s.pc t) = true) (r : ChainTask) :
    (s.queue r).pc t = .idle :=
  (atQueue_outside hc).1 (h t r)

theorem Synced.same (h : Synced s) (hpc : s'.pc = s.pc) (hq : s'.queue = s.queue) : Synced s' := by
  intro t r
  rw [hpc, hq]
  exact h t r

theorem Synced.goto (h : Synced s) {t : ChainTask} {c : ChainPc} (hpc : s'.pc = Function.update s.pc t c)
    (hq : s'.queue = s.queue) (hc : outside (s.pc t) = true) (hc' : outside c = true) : Synced s' := by
  intro v r
  rw [hpc, hq]
  by_cases hv : v = t
  · rw [hv, Function.update_self]
    exact (atQueue_outside hc').2 (h.idle hc r)
  · rw [Function.update_of_ne hv]
    exact h v r

/-- **A step at one queue**: what it does to the thread that takes it, and to the others there. -/
theorem Synced.queue (h : Synced s) {t r : ChainTask} {c : ChainPc} {q : MessageQueue ChainTask Payload}
    (hpc : s'.pc = Function.update s.pc t c) (hq : s'.queue = Function.update s.queue r q)
    (hown : AtQueue t r c (q.pc t)) (helse : ∀ u, u ≠ r → AtQueue t u c ((s.queue u).pc t))
    (hothers : ∀ v, v ≠ t → AtQueue v r (s.pc v) (q.pc v)) : Synced s' := by
  intro v u
  rw [hpc, hq]
  by_cases hv : v = t
  · rw [hv, Function.update_self]
    by_cases hu : u = r
    · rw [hu, Function.update_self]; exact hown
    · rw [Function.update_of_ne hu]; exact helse u hu
  · rw [Function.update_of_ne hv]
    by_cases hu : u = r
    · rw [hu, Function.update_self]; exact hothers v hv
    · rw [Function.update_of_ne hu]; exact h v u

theorem inWaitFor_check (q : MessageQueue ChainTask Payload) (t : ChainTask) (timedOut : Bool) :
    inWaitFor ((q.check t .waitFor timedOut).pc t) = true := by
  unfold MessageQueue.check
  split
  · cases timedOut with
    | true =>
      show inWaitFor (Function.update q.pc t _ t) = true
      rw [Function.update_self]; rfl
    | false =>
      show inWaitFor (Function.update q.pc t _ t) = true
      rw [Function.update_self]; rfl
  · show inWaitFor (Function.update q.pc t _ t) = true
    rw [Function.update_self]; rfl

/-- A thread inside `wait_for` at a queue is the queue's own. -/
theorem Synced.waiting (h : Synced s) {t r : ChainTask} {q : QueuePc Payload} (hq : (s.queue r).pc t = q)
    (hidle : q ≠ .idle) (hnotify : q ≠ .notify) : s.pc t = .waiting ∧ r = t ∧ inWaitFor q = true := by
  have hat := h t r
  rw [hq] at hat
  cases hpc : s.pc t with
  | waiting =>
    rw [hpc] at hat
    have hat : if r = t then inWaitFor q = true else q = .idle := hat
    by_cases hr : r = t
    · rw [if_pos hr] at hat
      exact ⟨rfl, hr, hat⟩
    · rw [if_neg hr] at hat
      exact absurd hat hidle
  | notifying u rest =>
    rw [hpc] at hat
    have hat : q = if r = u then .notify else .idle := hat
    by_cases hr : r = u
    · rw [if_pos hr] at hat
      exact absurd hat hnotify
    · rw [if_neg hr] at hat
      exact absurd hat hidle
  | _ =>
    rw [hpc] at hat
    exact absurd hat hidle

/-- The check of `wait_for` at a thread's own queue, from outside or from inside the wait. -/
theorem Synced.check (h : Synced s) {t : ChainTask} {timedOut : Bool}
    (hpc : s'.pc = Function.update s.pc t .waiting)
    (hq : s'.queue = Function.update s.queue t ((s.queue t).check t .waitFor timedOut))
    (helse : ∀ u, u ≠ t → (s.queue u).pc t = .idle) : Synced s' := by
  refine h.queue hpc hq ?_ (fun u hu => ?_) (fun v hv => ?_)
  · show if t = t then inWaitFor _ = true else _ = QueuePc.idle
    rw [if_pos rfl]
    exact inWaitFor_check _ t timedOut
  · show if u = t then inWaitFor _ = true else _ = QueuePc.idle
    rw [if_neg hu]
    exact helse u hu
  · rw [(MessageQueue.check_flow (s.queue t) t .waitFor timedOut).2 v hv]
    exact h v t

theorem Synced.elsewhere (h : Synced s) {t : ChainTask} (hpc : s.pc t = .waiting) {u : ChainTask} (hu : u ≠ t) :
    (s.queue u).pc t = .idle := by
  have hat := h t u
  rw [hpc] at hat
  have hat : if u = t then inWaitFor ((s.queue u).pc t) = true else (s.queue u).pc t = .idle := hat
  rwa [if_neg hu] at hat

theorem synced_go {t : ChainTask} {now : TimePoint} (h : Synced s) (hst : s.goStep t now = some s') : Synced s' := by
  rcases goStep_cases hst with ⟨c, hturn, hgo⟩ | ⟨hpc, m, -, rfl⟩ | ⟨hpc, -, p, -, rfl⟩ | ⟨hpc, -, q, hq, rfl⟩ |
    ⟨msg, q, hpc, -, hq, rfl⟩ | ⟨p, hpc, rfl⟩ | ⟨r, p, rest, q, hpc, hq, rfl⟩ | ⟨cmd, p, hpc, -, rfl⟩ | ⟨hpc, rfl⟩
  · exact h.goto hgo.pc hgo.queue hturn.outside.1 hturn.outside.2
  · exact h.goto rfl rfl (by rw [hpc]; rfl) rfl
  · exact h.goto rfl rfl (by rw [hpc]; rfl) rfl
  · have hidle := h.idle (by rw [hpc]; rfl : outside (s.pc t) = true)
    simp only [MessageQueue.step, hidle t] at hq
    cases hq
    exact h.check rfl rfl (fun u _ => hidle u)
  · -- the wait is over: the thread is inside no call
    simp only [MessageQueue.step] at hq
    split at hq
    · cases hq
      refine h.queue rfl rfl ?_ (fun u hu => h.elsewhere hpc hu) (fun v hv => ?_)
      · exact Function.update_self ..
      · show AtQueue v t (s.pc v) (Function.update (s.queue t).pc t .idle v)
        rw [Function.update_of_ne hv]
        exact h v t
    · cases hq
  · unfold handleStep
    split
    · exact h.goto rfl rfl (by rw [hpc]; rfl) rfl
    · exact h.goto rfl rfl (by rw [hpc]; rfl) rfl
  · have hidle := h.idle (by rw [hpc]; rfl : outside (s.pc t) = true)
    simp only [MessageQueue.step, hidle r] at hq
    cases hq
    refine h.queue rfl rfl ?_ (fun u hu => ?_) (fun v hv => ?_)
    · show Function.update (s.queue r).pc t .notify t = if r = r then .notify else .idle
      rw [Function.update_self, if_pos rfl]
    · show (s.queue u).pc t = if u = r then .notify else .idle
      rw [if_neg hu]
      exact hidle u
    · show AtQueue v r (s.pc v) (Function.update (s.queue r).pc t .notify v)
      rw [Function.update_of_ne hv]
      exact h v r
  · exact h.goto rfl rfl (by rw [hpc]; rfl) rfl
  · exact h.goto rfl rfl (by rw [hpc]; rfl) rfl

/-- A wake-up leaves its thread inside the wait. -/
theorem Synced.wakes (h : Synced s) {t r : ChainTask} {c : PopCall} (hb : (s.queue r).pc t = .blocked c) :
    AtQueue t r (s.pc t) (.woken c) := by
  obtain ⟨hpc, rfl, hin⟩ := h.waiting hb (fun he => by cases he) (fun he => by cases he)
  rw [hpc]
  show if r = r then inWaitFor (.woken c) = true else _
  rw [if_pos rfl]
  cases c with
  | waitFor => rfl
  | tryPop => cases hin
  | wait => cases hin

theorem Synced.withManager (h : Synced s) (hl : LinkInv s) (m : ThreadManager) : Synced (s.withManager m) := by
  intro t r
  have hpc : (s.withManager m).pc t = .head ∧ s.pc t = .exited ∨ (s.withManager m).pc t = s.pc t := by
    show (if !s.manager.running (taskId t) && m.running (taskId t) then .head else s.pc t) = _ ∧ _ ∨
      (if !s.manager.running (taskId t) && m.running (taskId t) then .head else s.pc t) = _
    split
    · rename_i hs
      simp only [Bool.and_eq_true, Bool.not_eq_true'] at hs
      exact .inl ⟨rfl, hl.exited t hs.1⟩
    · exact .inr rfl
  show AtQueue t r ((s.withManager m).pc t) ((s.queue r).pc t)
  rcases hpc with ⟨hpc, hexit⟩ | hpc
  · rw [hpc]
    exact h.idle (by rw [hexit]; rfl) r
  · rw [hpc]
    exact h t r

theorem synced_step {a : ChainAct} (hl : LinkInv s) (h : Synced s) (hst : s.step a = some s') : Synced s' := by
  rcases step_cases hst with ⟨b, m, -, -, rfl⟩ | ⟨b, p, -, rfl⟩ | ⟨t, now, hgo⟩ |
    ⟨t, target, r, rest, q, hpc, hq, rfl⟩ | ⟨t, q, hpc, hq, rfl⟩ | ⟨t, timedOut, q, hpc, hq, rfl⟩
  · exact h.withManager hl m
  · exact h.same rfl rfl
  · exact synced_go h hgo
  · have helse : ∀ u, u ≠ r → (s.queue u).pc t = .idle := by
      intro u hu
      have hat := h t u
      rw [hpc] at hat
      have hat : (s.queue u).pc t = if u = r then .notify else .idle := hat
      rwa [if_neg hu] at hat
    cases target with
    | none =>
      simp only [MessageQueue.step] at hq
      split at hq
      · split at hq
        · cases hq
          refine h.queue rfl rfl ?_ helse (fun v hv => ?_)
          · exact Function.update_self ..
          · show AtQueue v r (s.pc v) (Function.update (s.queue r).pc t .idle v)
            rw [Function.update_of_ne hv]
            exact h v r
        · cases hq
      · cases hq
    | some j =>
      simp only [MessageQueue.step] at hq
      split at hq
      · rename_i c hnotify hblocked
        cases hq
        have hjt : t ≠ j := fun he => by rw [he, hblocked] at hnotify; cases hnotify
        refine h.queue rfl rfl ?_ helse (fun v hv => ?_)
        · show Function.update (Function.update (s.queue r).pc t .idle) j (.woken c) t = .idle
          rw [Function.update_of_ne hjt, Function.update_self]
        · show AtQueue v r (s.pc v) (Function.update (Function.update (s.queue r).pc t .idle) j (.woken c) v)
          by_cases hvj : v = j
          · rw [hvj, Function.update_self]
            exact h.wakes hblocked
          · rw [Function.update_of_ne hvj, Function.update_of_ne hv]
            exact h v r
      · cases hq
  · have hself : s.pc = Function.update s.pc t .waiting := by rw [← hpc, Function.update_eq_self]
    simp only [MessageQueue.step] at hq
    split at hq
    · rename_i c hblocked
      cases hq
      refine h.queue hself rfl ?_ (fun u _ => by rw [← hpc]; exact h t u) (fun v hv => ?_)
      · show AtQueue t t .waiting (Function.update (s.queue t).pc t (.woken c) t)
        rw [Function.update_self, ← hpc]
        exact h.wakes hblocked
      · show AtQueue v t (s.pc v) (Function.update (s.queue t).pc t (.woken c) v)
        rw [Function.update_of_ne hv]
        exact h v t
    · cases hq
  · have hself : s.pc = Function.update s.pc t .waiting := by rw [← hpc, Function.update_eq_self]
    simp only [MessageQueue.step] at hq
    split at hq
    · rename_i c hwoken
      obtain ⟨-, -, hin⟩ := h.waiting hwoken (fun he => by cases he) (fun he => by cases he)
      cases hq
      cases c with
      | waitFor => exact h.check hself rfl (fun u hu => h.elsewhere hpc hu)
      | tryPop => cases hin
      | wait => cases hin
    · cases hq

theorem synced_init : Synced init := fun _ _ => rfl

theorem reachable_synced (hs : machine.Reachable s) : Synced s :=
  hs.invariant_of (I := Synced) (fun _ hr => (reachable_flowInv hr).1) synced_init
    (fun _ _ _ hl h hst => synced_step hl h hst)

/-! ## How far the messages have to go -/

/-- The four threads behind the observer. -/
def isConsumer (t : ChainTask) : Bool := t ≠ .observerIncoming

/-- More than the steps that a message in a task's queue has before it. -/
def weight : ChainTask → Nat
  | .observerIncoming => 0
  | .appObserver      => 24
  | .processing       => 16
  | .transformation   => 10
  | .result           => 4

def sendsWeight (sends : List (ChainTask × Payload)) : Nat := (sends.map (fun e => weight e.1 + 2)).sum

/-- The steps before a thread until it is at its loop's head, and those of what it sends until then. -/
def phase (t : ChainTask) (c : ChainPc) (q : QueuePc Payload) : Nat :=
  match c, q with
  | .waiting, .blocked _        => 1
  | .waiting, .ret _ none _     => 2
  | .waiting, .ret _ (some _) _ => weight t - 1
  | .got none, _                => 1
  | .got (some _), _            => weight t - 2
  | .sending rest, _            => sendsWeight rest + 1
  | .notifying _ rest, _        => sendsWeight rest + 2
  | _, _                        => 0

def load (s : Chain) (t : ChainTask) : Nat :=
  if isConsumer t then phase t (s.pc t) ((s.queue t).pc t) + weight t * (s.queue t).queue.length else 0

/-- **What a task makes of a message is lighter than the message.** -/
theorem sendsWeight_handles {mc : Int32} {t : ChainTask} {p : Payload} {sends : List (ChainTask × Payload)}
    (ht : isConsumer t = true) (h : handles mc t p = some sends) : sendsWeight sends + 1 < weight t - 2 := by
  cases t with
  | observerIncoming => cases ht
  | appObserver =>
    cases p with
    | fileEvent fe =>
      obtain rfl := Option.some.inj h
      show weight .observerIncoming + 2 + (weight .processing + 2 + 0) + 1 < weight .appObserver - 2
      decide
    | _ => cases h
  | processing =>
    cases p with
    | appEvent ae =>
      obtain rfl := Option.some.inj h
      show weight .transformation + 2 + 0 + 1 < weight .processing - 2
      decide
    | _ => cases h
  | transformation =>
    cases p with
    | processedData pd =>
      obtain rfl := Option.some.inj h
      show weight .result + 2 + 0 + 1 < weight .transformation - 2
      decide
    | _ => cases h
  | result =>
    cases p with
    | transformedData td =>
      obtain rfl := Option.some.inj h
      decide
    | _ => cases h

theorem four_le_weight {t : ChainTask} (ht : isConsumer t = true) : 4 ≤ weight t := by
  cases t <;> first | cases ht; done | decide

/-- A step of a consumer's at its own queue, or at none. -/
theorem load_lt_of_own {t : ChainTask} {c : ChainPc} {q : MessageQueue ChainTask Payload} (ht : isConsumer t = true)
    (hpc : s'.pc = Function.update s.pc t c) (hq : s'.queue = Function.update s.queue t q)
    (hlt : phase t c (q.pc t) + weight t * q.queue.length <
      phase t (s.pc t) ((s.queue t).pc t) + weight t * (s.queue t).queue.length) :
    ∑ v, load s' v < ∑ v, load s v := by
  have hown : load s' t + 0 < load s t := by
    unfold load
    rw [if_pos ht, if_pos ht, hpc, hq, Function.update_self, Function.update_self]
    exact hlt
  refine sum_lt_of_handover (i := t) (j := t) 0 hown (by omega) (fun v hv _ => ?_)
  unfold load
  rw [hpc, hq, Function.update_of_ne hv, Function.update_of_ne hv]

/-- A step of a consumer's at the queue of another, to which it adds `n` messages. -/
theorem load_lt_of_other {t r : ChainTask} {c : ChainPc} {q : MessageQueue ChainTask Payload} {n : Nat}
    (ht : isConsumer t = true) (hrt : r ≠ t) (hpc : s'.pc = Function.update s.pc t c)
    (hq : s'.queue = Function.update s.queue r q) (hlen : q.queue.length = (s.queue r).queue.length + n)
    (hr : phase r (s.pc r) (q.pc r) ≤ phase r (s.pc r) ((s.queue r).pc r))
    (hlt : phase t c ((s.queue t).pc t) + weight r * n < phase t (s.pc t) ((s.queue t).pc t)) :
    ∑ v, load s' v < ∑ v, load s v := by
  have hown : load s' t + weight r * n < load s t := by
    unfold load
    rw [if_pos ht, if_pos ht, hpc, hq, Function.update_self, Function.update_of_ne hrt.symm]
    omega
  refine sum_lt_of_handover (i := t) (j := r) (weight r * n) hown ?_ (fun v hv hvr => ?_)
  · unfold load
    rw [hpc, hq, Function.update_self, Function.update_of_ne hrt, hlen, Nat.mul_add]
    split
    · omega
    · omega
  · unfold load
    rw [hpc, hq, Function.update_of_ne hv, Function.update_of_ne hvr]

/-! ## A step of a thread that has something to do -/

/-- The steps of the four threads behind the observer, but for a wait that finds nothing in its queue. -/
def productive (s : Chain) : ChainAct → Bool
  | .go t _      => isConsumer t && (s.pc t ≠ .head || !(s.queue t).queue.isEmpty)
  | .notify t _  => isConsumer t
  | .wake t      => isConsumer t && !(s.queue t).queue.isEmpty
  | .recheck t _ => isConsumer t && !(s.queue t).queue.isEmpty
  | _            => false

/-- A step of a consumer's that starts and stops nothing, sends no event and brings the messages nearer to the end. -/
structure Advances (s s' : Chain) : Prop where
  manager : s'.manager = s.manager
  sent    : s'.sent = s.sent
  live    : ∀ v, s.pc v ≠ .exited → s'.pc v ≠ .exited
  load    : ∑ v, load s' v < ∑ v, load s v

theorem live_update {t : ChainTask} {c : ChainPc} (hpc : s'.pc = Function.update s.pc t c) (hc : c ≠ .exited) :
    ∀ v, s.pc v ≠ .exited → s'.pc v ≠ .exited := by
  intro v hv
  rw [hpc]
  by_cases hvt : v = t
  · rw [hvt, Function.update_self]; exact hc
  · rw [Function.update_of_ne hvt]; exact hv

/-- A move of a consumer's that is at no queue. -/
theorem Advances.goto {t : ChainTask} {c : ChainPc} (ht : isConsumer t = true) (hm : s'.manager = s.manager)
    (hs : s'.sent = s.sent) (hpc : s'.pc = Function.update s.pc t c) (hq : s'.queue = s.queue) (hc : c ≠ .exited)
    (hlt : phase t c ((s.queue t).pc t) < phase t (s.pc t) ((s.queue t).pc t)) : Advances s s' := by
  have hq' : s'.queue = Function.update s.queue t (s.queue t) := by rw [hq, Function.update_eq_self]
  exact ⟨hm, hs, live_update hpc hc, load_lt_of_own ht hpc hq' (by omega)⟩

theorem Turns.advances {t : ChainTask} {c : ChainPc} (hl : LinkInv s) (ht : isConsumer t = true)
    (hturn : Turns (s.pc t) c) (hgo : GoesOn s s' t c) : Advances s s' := by
  have hplace := hl.places t
  have hne : t ≠ .observerIncoming := of_decide_eq_true ht
  have hlt : c ≠ .exited ∧ ∀ q, phase t c q < phase t (s.pc t) q := by
    generalize s.pc t = c₀ at hturn hplace
    cases hturn with
    | timedOut => exact ⟨(fun he => by cases he), fun _ => Nat.zero_lt_one⟩
    | allSent => exact ⟨(fun he => by cases he), fun _ => Nat.zero_lt_one⟩
    | commanded => exact absurd (of_decide_eq_true hplace) hne
    | autoExit => exact absurd (of_decide_eq_true hplace) hne
    | paused => exact absurd (of_decide_eq_true hplace) hne
    | due => exact absurd (of_decide_eq_true hplace) hne
  exact .goto ht hgo.manager hgo.sent hgo.pc hgo.queue hlt.1 (hlt.2 _)

theorem Advances.handleStep {t : ChainTask} {p : Payload} (ht : isConsumer t = true) (hpc : s.pc t = .got (some p)) :
    Advances s (s.handleStep t p) := by
  have hweight := four_le_weight ht
  unfold Chain.handleStep
  split
  · rename_i sends hsends
    have hlt := sendsWeight_handles ht hsends
    refine .goto (c := .sending sends) ht rfl rfl rfl rfl (fun he => by cases he) ?_
    rw [hpc]
    exact hlt
  · refine .goto (c := .head) ht rfl rfl rfl rfl (fun he => by cases he) ?_
    rw [hpc]
    show 0 < weight t - 2
    omega

/-- The push of a Send: its message is as heavy as the Send, but for a step. -/
theorem Advances.push {t r : ChainTask} {p : Payload} {rest : List (ChainTask × Payload)}
    {q : MessageQueue ChainTask Payload} (ht : isConsumer t = true) (hpc : s.pc t = .sending ((r, p) :: rest))
    (hq : (s.queue r).step (.push t (some p)) = some q) (hm : s'.manager = s.manager) (hs : s'.sent = s.sent)
    (hpc' : s'.pc = Function.update s.pc t (.notifying r rest)) (hq' : s'.queue = Function.update s.queue r q) :
    Advances s s' := by
  refine ⟨hm, hs, live_update hpc' (fun he => by cases he), ?_⟩
  obtain ⟨hlen, hpcq⟩ : q.queue.length = (s.queue r).queue.length + 1 ∧
      q.pc = Function.update (s.queue r).pc t .notify := by
    simp only [MessageQueue.step] at hq
    split at hq
    · cases hq; exact ⟨List.length_append, rfl⟩
    · cases hq
  have hphase : ∀ x, phase t (s.pc t) x = weight r + 2 + sendsWeight rest + 1 := by rw [hpc]; exact fun _ => rfl
  have hphase' : ∀ x, phase t (.notifying r rest) x = sendsWeight rest + 2 := fun _ => rfl
  by_cases hrt : r = t
  · refine load_lt_of_own (t := t) (q := q) ht hpc' (by rw [hq', hrt]) ?_
    rw [hrt] at hlen hphase
    rw [hphase, hphase', hlen, Nat.mul_add]
    omega
  · refine load_lt_of_other ht hrt hpc' hq' hlen ?_ ?_
    · rw [hpcq, Function.update_of_ne hrt]
    · rw [hphase, hphase']
      omega

theorem phase_woken_le (t : ChainTask) (c : ChainPc) (x : PopCall) :
    phase t c (.woken x) ≤ phase t c (.blocked x) := by
  cases c with
  | waiting => exact Nat.zero_le _
  | got msg => cases msg <;> exact Nat.le_refl _
  | _ => exact Nat.le_refl _

/-- A `notify_one` wakes nobody, or the queue's own thread: no other blocks there. -/
theorem notifyOne_phase_le (hy : Synced s) {t r : ChainTask} {target : Option ChainTask}
    {q : MessageQueue ChainTask Payload} (hq : (s.queue r).step (.notifyOne t target) = some q) :
    q.queue = (s.queue r).queue ∧ (r ≠ t → phase r (s.pc r) (q.pc r) ≤ phase r (s.pc r) ((s.queue r).pc r)) := by
  cases target with
  | none =>
    simp only [MessageQueue.step] at hq
    split at hq
    · split at hq
      · cases hq
        refine ⟨rfl, fun hrt => ?_⟩
        show phase r (s.pc r) (Function.update (s.queue r).pc t .idle r) ≤ _
        rw [Function.update_of_ne hrt]
      · cases hq
    · cases hq
  | some j =>
    simp only [MessageQueue.step] at hq
    split at hq
    · rename_i x hnotify hx
      cases hq
      obtain ⟨-, rfl, -⟩ := hy.waiting hx (fun he => by cases he) (fun he => by cases he)
      refine ⟨rfl, fun _ => ?_⟩
      show phase r (s.pc r) (Function.update (Function.update (s.queue r).pc t .idle) r (.woken x) r) ≤ _
      rw [Function.update_self, hx]
      exact phase_woken_le r _ x
    · cases hq

theorem Advances.notify (hy : Synced s) {t r : ChainTask} {target : Option ChainTask}
    {rest : List (ChainTask × Payload)} {q : MessageQueue ChainTask Payload} (ht : isConsumer t = true)
    (hpc : s.pc t = .notifying r rest) (hq : (s.queue r).step (.notifyOne t target) = some q) :
    Advances s (({ s with queue := Function.update s.queue r q } : Chain).setPc t (.sending rest)) := by
  refine ⟨rfl, rfl, live_update rfl (fun he => by cases he), ?_⟩
  obtain ⟨hlen, hle⟩ := notifyOne_phase_le hy hq
  have hphase : ∀ x, phase t (s.pc t) x = sendsWeight rest + 2 := by rw [hpc]; exact fun _ => rfl
  have hphase' : ∀ x, phase t (.sending rest) x = sendsWeight rest + 1 := by cases rest <;> exact fun _ => rfl
  by_cases hrt : r = t
  · refine load_lt_of_own (t := t) (q := q) ht rfl (by rw [← hrt]; rfl) ?_
    rw [hphase, hphase', hlen, hrt]
    omega
  · refine load_lt_of_other (n := 0) ht hrt rfl rfl (by rw [hlen]; rfl) (hle hrt) ?_
    rw [hphase, hphase']
    omega

/-- A check that finds a message in the queue takes it. -/
theorem Advances.check {t : ChainTask} {timedOut : Bool} (ht : isConsumer t = true) (hm : s'.manager = s.manager)
    (hs : s'.sent = s.sent) (hpc : s'.pc = Function.update s.pc t .waiting)
    (hq : s'.queue = Function.update s.queue t ((s.queue t).check t .waitFor timedOut))
    (hne : (s.queue t).queue.isEmpty = false) : Advances s s' := by
  have hweight := four_le_weight ht
  refine ⟨hm, hs, live_update hpc (fun he => by cases he), load_lt_of_own ht hpc hq ?_⟩
  cases hqueue : (s.queue t).queue with
  | nil => rw [hqueue] at hne; cases hne
  | cons msg rest =>
    have hcheck : (s.queue t).check t .waitFor timedOut = (s.queue t).popAndReturn t .waitFor := by
      unfold MessageQueue.check
      rw [hqueue]; rfl
    have hlen : ((s.queue t).popAndReturn t .waitFor).queue = rest := by
      show (MessageQueue.pop (s.queue t).queue).2 = rest
      rw [hqueue]; rfl
    have hphase : phase t .waiting (((s.queue t).popAndReturn t .waitFor).pc t) ≤ weight t - 1 := by
      show phase t .waiting (Function.update (s.queue t).pc t _ t) ≤ _
      rw [Function.update_self, hqueue]
      cases msg with
      | none => show 2 ≤ weight t - 1; omega
      | some p => exact Nat.le_refl _
    rw [hcheck, hlen, List.length_cons, Nat.mul_add]
    omega

/-- The return of `wait_for`. -/
theorem Advances.ret {t : ChainTask} {msg : Option Payload} {q : MessageQueue ChainTask Payload}
    (ht : isConsumer t = true) (hpc : s.pc t = .waiting) (hres : MessageQueue.result ((s.queue t).pc t) = msg)
    (hq : (s.queue t).step (.ret t) = some q) :
    Advances s (({ s with queue := Function.update s.queue t q } : Chain).setPc t (.got msg)) := by
  have hweight := four_le_weight ht
  refine ⟨rfl, rfl, live_update rfl (fun he => by cases he), load_lt_of_own ht rfl rfl ?_⟩
  simp only [MessageQueue.step] at hq
  split at hq
  · rename_i c msg' seen hret
    cases hq
    obtain rfl : msg' = msg := by rw [hret] at hres; exact hres
    rw [hpc, hret]
    refine Nat.add_lt_add_right ?_ _
    cases msg' with
    | none => exact Nat.lt_succ_self 1
    | some p => show weight t - 2 < weight t - 1; omega
  · cases hq

/-- At its loop's head, a consumer not told to stop goes into its wait. -/
theorem goStep_head {t : ChainTask} (ht : isConsumer t = true) (hrun : s.stopRequested t = false)
    (hpc : s.pc t = .head) (now : TimePoint) :
    s.goStep t now = (s.queueStep t (.call t .waitFor)).map (fun u => u.setPc t .waiting) := by
  simp only [goStep, hpc, hrun, if_neg Bool.false_ne_true]
  cases t with
  | observerIncoming => cases ht
  | _ => rfl

theorem Advances.go (hl : LinkInv s) {t : ChainTask} {now : TimePoint} (ht : isConsumer t = true)
    (hrun : s.stopRequested t = false) (hprod : s.pc t = .head → (s.queue t).queue.isEmpty = false)
    (hst : s.goStep t now = some s') : Advances s s' := by
  have hplace := hl.places t
  have hne : t ≠ .observerIncoming := of_decide_eq_true ht
  by_cases hhead : s.pc t = .head
  · rw [goStep_head ht hrun hhead] at hst
    obtain ⟨u, hu, rfl⟩ := Option.map_eq_some_iff.1 hst
    obtain ⟨q, hq, rfl⟩ := queueStep_eq hu
    simp only [MessageQueue.step] at hq
    split at hq
    · cases hq
      exact .check ht rfl rfl rfl rfl (hprod hhead)
    · cases hq
  · rcases goStep_cases hst with ⟨c, hturn, hgo⟩ | ⟨hpc, -⟩ | ⟨hpc, -⟩ | ⟨hpc, -⟩ | ⟨msg, q, hpc, hres, hq, rfl⟩ |
      ⟨p, hpc, rfl⟩ | ⟨r, p, rest, q, hpc, hq, rfl⟩ | ⟨cmd, p, hpc, -⟩ | ⟨hpc, -⟩
    · exact hturn.advances hl ht hgo
    · exact absurd hpc hhead
    · exact absurd hpc hhead
    · exact absurd hpc hhead
    · exact .ret ht hpc hres hq
    · exact .handleStep ht hpc
    · exact .push ht hpc hq rfl (if_neg hne) rfl rfl
    · rw [hpc] at hplace; exact absurd (of_decide_eq_true hplace) hne
    · rw [hpc] at hplace; exact absurd (of_decide_eq_true hplace) hne

/-- **Every productive step brings the messages nearer to the end.** -/
theorem advances_of_step (hl : LinkInv s) (hy : Synced s) {a : ChainAct} (hprod : s.productive a = true)
    (hrun : ∀ t, isConsumer t = true → s.stopRequested t = false) (hst : s.step a = some s') : Advances s s' := by
  cases a with
  | manager a => cases hprod
  | command a => cases hprod
  | go t now =>
    obtain ⟨ht, hhead⟩ := (Bool.and_eq_true _ _).mp hprod
    refine .go hl ht (hrun t ht) (fun hpc => ?_) hst
    simpa [hpc] using hhead
  | notify t target =>
    simp only [step] at hst
    split at hst
    · rename_i r rest hpc
      obtain ⟨u, hu, rfl⟩ := Option.map_eq_some_iff.1 hst
      obtain ⟨q, hq, rfl⟩ := queueStep_eq hu
      exact .notify hy hprod hpc hq
    · cases hst
  | wake t =>
    obtain ⟨ht, -⟩ := (Bool.and_eq_true _ _).mp hprod
    simp only [step] at hst
    split at hst
    · rename_i hpc
      obtain ⟨q, hq, rfl⟩ := queueStep_eq hst
      have hself : s.pc = Function.update s.pc t .waiting := by rw [← hpc, Function.update_eq_self]
      simp only [MessageQueue.step] at hq
      split at hq
      · rename_i x hx
        cases hq
        refine ⟨rfl, rfl, fun _ hv => hv, load_lt_of_own ht hself rfl ?_⟩
        show phase t .waiting (Function.update (s.queue t).pc t (.woken x) t) + _ < _
        rw [Function.update_self, hpc, hx]
        exact Nat.add_lt_add_right Nat.zero_lt_one _
      · cases hq
    · cases hst
  | recheck t timedOut =>
    obtain ⟨ht, hne⟩ := (Bool.and_eq_true _ _).mp hprod
    simp only [step] at hst
    split at hst
    · rename_i hpc
      obtain ⟨q, hq, rfl⟩ := queueStep_eq hst
      have hself : s.pc = Function.update s.pc t .waiting := by rw [← hpc, Function.update_eq_self]
      have hwait := hy t t
      simp only [MessageQueue.step] at hq
      split at hq
      · rename_i x hx
        cases hq
        obtain ⟨-, -, hin⟩ := hy.waiting hx (fun he => by cases he) (fun he => by cases he)
        cases x with
        | waitFor => exact .check ht rfl rfl hself rfl (by simpa using hne)
        | tryPop => cases hin
        | wait => cases hin
      · cases hq
    · cases hst

/-! ## There is one as long as something is on the way -/

theorem isEmpty_of_nothing_held {t : ChainTask} (hhold : holding (s.pc t) ((s.queue t).pc t) = [])
    (hin : s.inbox t ≠ []) : (s.queue t).queue.isEmpty = false := by
  cases hq : (s.queue t).queue with
  | nil =>
    refine absurd ?_ hin
    unfold inbox MessageQueue.contents
    rw [hhold, hq]; rfl
  | cons msg rest => rfl

/-- A thread that is to notify finds somebody blocked there, or nobody. -/
theorem exists_notify (hy : Synced s) {t r : ChainTask} {rest : List (ChainTask × Payload)}
    (hpc : s.pc t = .notifying r rest) : ∃ target, (s.step (.notify t target)).isSome = true := by
  have hnotify : (s.queue r).pc t = .notify := by
    have hat := hy t r
    rw [hpc] at hat
    have hat : (s.queue r).pc t = if r = r then .notify else .idle := hat
    rwa [if_pos rfl] at hat
  by_cases hnone : ∀ j, MessageQueue.isBlocked ((s.queue r).pc j) = false
  · refine ⟨none, ?_⟩
    simp only [step, hpc, queueStep, MessageQueue.step, hnotify, if_pos hnone, Option.map_some, Option.isSome_some]
  · obtain ⟨j, hj⟩ := not_forall.1 hnone
    cases hqj : (s.queue r).pc j with
    | blocked x =>
      refine ⟨some j, ?_⟩
      simp only [step, hpc, queueStep, MessageQueue.step, hnotify, hqj, Option.map_some, Option.isSome_some]
    | _ => rw [hqj] at hj; exact absurd rfl hj

/-- Inside `wait_for`, a thread wakes up, checks, with its timeout behind it or not, or returns. -/
theorem exists_waitStep (hy : Synced s) {t : ChainTask} (hpc : s.pc t = .waiting) (timedOut : Bool) :
    ∃ a, ((a = .wake t ∨ a = .recheck t timedOut) ∧ MessageQueue.result ((s.queue t).pc t) = none ∨ a = .go t 0) ∧
      (s.step a).isSome = true := by
  have hat := hy t t
  rw [hpc] at hat
  have hat : if t = t then inWaitFor ((s.queue t).pc t) = true else (s.queue t).pc t = .idle := hat
  rw [if_pos rfl] at hat
  cases hq : (s.queue t).pc t with
  | idle => rw [hq] at hat; cases hat
  | notify => rw [hq] at hat; cases hat
  | blocked x =>
    refine ⟨.wake t, .inl ⟨.inl rfl, rfl⟩, ?_⟩
    simp only [step, hpc, queueStep, MessageQueue.step, hq, Option.map_some, Option.isSome_some]
  | woken x =>
    refine ⟨.recheck t timedOut, .inl ⟨.inr rfl, rfl⟩, ?_⟩
    simp only [step, hpc, queueStep, MessageQueue.step, hq, Option.map_some, Option.isSome_some]
  | ret x msg seen =>
    refine ⟨.go t 0, .inr rfl, ?_⟩
    simp only [step, goStep, hpc, hq, queueStep, MessageQueue.step, Option.map_some, Option.isSome_some]

/-- With a message for it, a thread inside `wait_for` has a productive step. -/
theorem exists_waiting (hy : Synced s) {t : ChainTask} (ht : isConsumer t = true) (hpc : s.pc t = .waiting)
    (hin : s.inbox t ≠ []) : ∃ a, s.productive a = true ∧ (s.step a).isSome = true := by
  obtain ⟨a, ha, hsome⟩ := exists_waitStep hy hpc false
  refine ⟨a, ?_, hsome⟩
  rcases ha with ⟨ha, hres⟩ | rfl
  · have hne : (s.queue t).queue.isEmpty = false := by
      refine isEmpty_of_nothing_held ?_ hin
      rw [hpc]
      show (MessageQueue.result ((s.queue t).pc t)).toList = []
      rw [hres]; rfl
    rcases ha with rfl | rfl
    · simp only [productive, ht, hne, Bool.not_false, Bool.and_self]
    · simp only [productive, ht, hne, Bool.not_false, Bool.and_self]
  · simp only [productive, ht, hpc, Bool.true_and]
    rfl

/-- The places in the loop that wait for nobody and test no stop token. -/
def unguarded : ChainPc → Bool
  | .got _       => true
  | .sending _   => true
  | .commanded _ => true
  | .autoExit    => true
  | .pauseCheck  => true
  | .emit        => true
  | _            => false

theorem exists_go (hy : Synced s) {t : ChainTask} (hpc : unguarded (s.pc t) = true) : (s.goStep t 0).isSome = true := by
  cases hc : s.pc t with
  | got msg => cases msg <;> simp only [goStep, hc, Option.isSome_some]
  | sending rest =>
    have hidle := hy.idle (by rw [hc]; rfl : outside (s.pc t) = true)
    cases rest with
    | nil => simp only [goStep, hc, Option.isSome_some]
    | cons e rest => simp only [goStep, hc, queueStep, MessageQueue.step, hidle, Option.map_some, Option.isSome_some]
  | commanded cmd => cases cmd <;> simp only [goStep, hc, Option.isSome_some]
  | autoExit => simp only [goStep, hc, Option.isSome_some]
  | pauseCheck => simp only [goStep, hc, Option.isSome_some]
  | emit => simp only [goStep, hc, Option.isSome_some]
  | _ => rw [hc] at hpc; cases hpc

/-- **Whatever the threads are doing, a consumer that has something to do can go on.** -/
theorem exists_productive (hl : LinkInv s) (hy : Synced s) {t : ChainTask} (ht : isConsumer t = true)
    (hlive : s.pc t ≠ .exited) (hrun : s.stopRequested t = false) (hbusy : ¬(s.inbox t = [] ∧ s.outbox t = [])) :
    ∃ a, s.productive a = true ∧ (s.step a).isSome = true := by
  have hplace := hl.places t
  have hne : t ≠ .observerIncoming := of_decide_eq_true ht
  have hin : s.outbox t = [] → s.inbox t ≠ [] := fun hout hin => hbusy ⟨hin, hout⟩
  have hprod : s.pc t ≠ .head → s.productive (.go t 0) = true := by
    intro hpc
    simp only [productive, ht, decide_eq_true hpc, Bool.true_or, Bool.and_self]
  cases hpc : s.pc t with
  | exited => exact absurd hpc hlive
  | head =>
    have hqueue := isEmpty_of_nothing_held (by rw [hpc]; rfl) (hin (by unfold outbox; rw [hpc]; rfl))
    have hidle := hy.idle (by rw [hpc]; rfl : outside (s.pc t) = true) t
    refine ⟨.go t 0, ?_, ?_⟩
    · simp only [productive, ht, hqueue, Bool.not_false, Bool.or_true, Bool.and_self]
    · simp only [step, goStep_head ht hrun hpc, queueStep, MessageQueue.step, hidle, Option.map_some,
        Option.isSome_some]
  | waiting => exact exists_waiting hy ht hpc (hin (by unfold outbox; rw [hpc]; rfl))
  | got msg =>
    exact ⟨.go t 0, hprod (by rw [hpc]; exact fun he => by cases he), exists_go hy (by rw [hpc]; rfl)⟩
  | sending rest =>
    exact ⟨.go t 0, hprod (by rw [hpc]; exact fun he => by cases he), exists_go hy (by rw [hpc]; rfl)⟩
  | notifying r rest =>
    obtain ⟨target, hst⟩ := exists_notify hy hpc
    exact ⟨.notify t target, ht, hst⟩
  | _ =>
    rw [hpc] at hplace
    exact absurd (of_decide_eq_true hplace) hne

/-! ## The drain -/

/-- What the productive steps keep: nothing is started, stopped or sent into the chain, and no consumer ends. -/
structure Draining (s₀ s : Chain) : Prop where
  reachable : machine.Reachable s
  manager   : s.manager = s₀.manager
  sent      : s.sent = s₀.sent
  live      : ∀ t, isConsumer t = true → s.pc t ≠ .exited

theorem Draining.stopRequested {s₀ s : Chain} (h : Draining s₀ s) (t : ChainTask) :
    s.stopRequested t = s₀.stopRequested t := by
  unfold Chain.stopRequested
  rw [h.manager]

theorem draining_step {s₀ s s' : Chain} {a : ChainAct}
    (hrun : ∀ t, isConsumer t = true → s₀.stopRequested t = false) (h : Draining s₀ s)
    (hst : (machine.only productive).step s a = some s') : Draining s₀ s' ∧ ∑ v, load s' v < ∑ v, load s v := by
  obtain ⟨hprod, hst⟩ := Machine.only_step.1 hst
  have hadv := advances_of_step (reachable_flowInv h.reachable).1 (reachable_synced h.reachable) hprod
    (fun t ht => by rw [h.stopRequested]; exact hrun t ht) hst
  exact ⟨⟨.step a h.reachable hst, hadv.manager.trans h.manager, hadv.sent.trans h.sent,
    fun v hv => hadv.live v (h.live v hv)⟩, hadv.load⟩

def Drained (s : Chain) : Prop := ∀ t, isConsumer t = true → s.inbox t = [] ∧ s.outbox t = []

theorem located_of_drained (h : Drained s) : s.located = s.finished := by
  have hstage : ∀ t, isConsumer t = true → s.stage t = [] := by
    intro t ht
    unfold stage
    rw [(h t ht).1, (h t ht).2]; rfl
  unfold located
  rw [hstage .result rfl, hstage .transformation rfl, hstage .processing rfl, hstage .appObserver rfl]
  simp only [List.append_nil]

/-- **No message is stuck, in whatever order the threads go on.**  As long as the four threads behind the observer run
and none is told to stop, their productive steps come to an end, and wherever they do, every FileEvent the observer has
sent is at the end of the chain, in order, and nothing is left on the way. -/
theorem chain_drains {s s' : Chain} (hs : machine.Reachable s)
    (hlive : ∀ t, isConsumer t = true → s.pc t ≠ .exited ∧ s.stopRequested t = false) (as : List ChainAct)
    (hrun : (machine.only productive).runFrom s as = some s') :
    as.length ≤ ∑ t, load s t ∧ s'.sent = s.sent ∧
    ((∃ a s'', (machine.only productive).step s' a = some s'') ∨
      (s'.finished = s.sent ∧ ∀ t, isConsumer t = true → s'.inbox t = [] ∧ s'.outbox t = [])) := by
  have hstart : Draining s s := ⟨hs, rfl, rfl, fun t ht => (hlive t ht).1⟩
  obtain ⟨hend, hle⟩ := Machine.length_le_of_measure (P := Draining s) (fun u => ∑ v, load u v)
    (fun _ _ _ hu hst => draining_step (fun t ht => (hlive t ht).2) hu hst) as hstart hrun
  refine ⟨Nat.le_trans (Nat.le_add_right _ _) hle, hend.sent, ?_⟩
  by_cases hdrained : Drained s'
  · have hlocated := (reachable_flowInv hend.reachable).2.located
    rw [located_of_drained hdrained] at hlocated
    exact .inr ⟨hlocated.trans hend.sent, hdrained⟩
  · left
    obtain ⟨t, ht⟩ := not_forall.1 hdrained
    obtain ⟨hcons, hbusy⟩ := Classical.not_imp.1 ht
    obtain ⟨a, hprod, hsome⟩ := exists_productive (reachable_flowInv hend.reachable).1
      (reachable_synced hend.reachable) hcons (hend.live t hcons)
      ((hend.stopRequested t).trans (hlive t hcons).2) hbusy
    obtain ⟨s'', hst⟩ := Option.isSome_iff_exists.1 hsome
    exact ⟨a, s'', Machine.only_step.2 ⟨hprod, hst⟩⟩

/-- The observer's first event, which the result task still has in its queue, and its way to the end. -/
theorem chain_drains_oneEvent : ∃ (s s' : Chain) (as : List ChainAct), s.sent.length = 1 ∧ s.finished = [] ∧
    as.length = 6 ∧ as.length ≤ ∑ t, load s t ∧
    ((∃ a s'', (machine.only productive).step s' a = some s'') ∨ s'.finished = s.sent) := by
  obtain ⟨s, hs⟩ : ∃ s, machine.runFrom machine.init oneEvent = some s := ⟨_, rfl⟩
  obtain ⟨s', hrun⟩ : ∃ s', (machine.only productive).runFrom s [.go .transformation 0, .go .processing 0,
      .go .result 0, .go .result 0, .go .result 0, .go .result 0] = some s' := by cases hs; exact ⟨_, rfl⟩
  have hsent : s.sent.length = 1 ∧ s.finished = [] := by cases hs; exact ⟨rfl, rfl⟩
  have hlive : ∀ t, isConsumer t = true → s.pc t ≠ .exited ∧ s.stopRequested t = false := by
    cases hs
    intro t ht
    cases t with
    | observerIncoming => cases ht
    | _ => exact ⟨by decide, rfl⟩
  obtain ⟨hlen, -, hend⟩ := chain_drains (Machine.reachable_of_run _ hs) hlive _ hrun
  exact ⟨s, s', _, hsent.1, hsent.2, rfl, hlen, hend.imp id And.left⟩

end Chain
end ThreadMessaging

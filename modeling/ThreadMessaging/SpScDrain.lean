import ThreadMessaging.SpScHandover
/-!
# No command is stuck on the command path

A lost wake-up costs the observer its time, not the command.  Wherever the observer stands in `wait_pop_for`, asleep
with a command in its buffer included, it goes on (`exists_productive`): its timeout wakes it, and with every load that
returns the newest store it comes nearer to its next pop (`nearer_of_step`), by at most fourteen steps a command.
-/
namespace ThreadMessaging
namespace CommandPath

variable {T : Type}

/-! ## The consumer and the ring's call it is in -/

def popping : ConsumerPc T → Bool
  | .popLoadTail   => true
  | .popLoadHead _ => true
  | .popCopy _     => true
  | .popStore _ _  => true
  | .popReturn _   => true
  | _              => false

/-- The ring's call that `wait_pop_for` is in. -/
def fits : WaiterPc T → ConsumerPc T → Bool
  | .check _, c => emptying c
  | .pop, c     => popping c
  | _, .idle    => true
  | _, _        => false

def holdsMutex : WaiterPc T → Bool
  | .check _ => true
  | .block   => true
  | .pop     => true
  | .ret _   => true
  | _        => false

/-- **The consumer's place in `wait_pop_for`**, in the ring's calls and at the mutex. -/
structure WaiterFits (s : CommandPath T) : Prop where
  call  : fits s.waiter s.ring.consumer = true
  mutex : s.waitMutex = holdsMutex s.waiter

/-- **What a step inside `empty` or `pop` can be.** -/
theorem popStep_cases {r r' : Spsc T} {a : SpscAct T} (h : popStep r a = some r') :
    (a = .consumer ∧ r.consumer = .popLoadTail ∧ r' = { r with consumer := .popLoadHead r.tail.latest }) ∨
    (a = .consumer ∧ ∃ tail out, r.consumer = .popStore tail out ∧
      r' = { r with tail := r.tail.store (SpScRingBuffer.next r.mask tail), delivered := r.delivered ++ [out],
                    consumer := .popReturn (some out) }) ∨
    (a = .consumer ∧ r.consumer = .emptyLoadTail ∧ r' = { r with consumer := .emptyLoadHead r.tail.latest }) ∨
    (∃ j head tail, a = .consumerLoads j ∧ r.head.stores[j]? = some head ∧ r.consumer = .popLoadHead tail ∧
      r' = { r with headSeen := j, consumer := if tail = head then .popReturn none else .popCopy tail }) ∨
    (∃ j head tail, a = .consumerLoads j ∧ r.head.stores[j]? = some head ∧ r.consumer = .emptyLoadHead tail ∧
      r' = { r with headSeen := j, consumer := .emptyReturn (tail = head) }) ∨
    (∃ k tail out, a = .consumerReads k ∧ r.consumer = .popCopy tail ∧
      r' = { r with consumer := .popStore tail out }) := by
  cases a with
  | consumer =>
    simp only [popStep] at h
    split at h
    · cases h
    · cases h
    · rename_i hnp hne
      simp only [Spsc.step, Spsc.consumerStep] at h
      split at h
      · rename_i hc; cases h; exact .inl ⟨rfl, hc, rfl⟩
      · rename_i tail out hc; cases h; exact .inr (.inl ⟨rfl, tail, out, hc, rfl⟩)
      · rename_i hc; cases h; exact .inr (.inr (.inl ⟨rfl, hc, rfl⟩))
      · rename_i hc; exact absurd hc (hnp _)
      · rename_i hc; exact absurd hc (hne _)
      · cases h
  | consumerLoads j =>
    simp only [popStep, Spsc.step] at h
    split at h
    · rename_i head hl
      split at h
      · unfold Spsc.consumerLoad at h
        split at h
        · rename_i tail hc
          refine .inr (.inr (.inr (.inl ⟨j, head, tail, rfl, hl, hc, ?_⟩)))
          split at h
          · rename_i heq; cases h; rw [if_pos heq]
          · rename_i hne; cases h; rw [if_neg hne]
        · rename_i tail hc
          cases h
          exact .inr (.inr (.inr (.inr (.inl ⟨j, head, tail, rfl, hl, hc, rfl⟩))))
        · cases h
      · cases h
    · cases h
  | consumerReads k =>
    simp only [popStep, Spsc.step] at h
    split at h
    · rename_i tail hc
      split at h
      · rename_i w hw
        split at h
        · cases h
          exact .inr (.inr (.inr (.inr (.inr ⟨k, tail, w.value, rfl, hc, rfl⟩))))
        · cases h
      · cases h
    · cases h
  | _ => cases h

/-- A step inside a call of the ring stays inside that call. -/
theorem fits_popStep {w : WaiterPc T} {r r' : Spsc T} {a : SpscAct T} (hf : fits w r.consumer = true)
    (h : popStep r a = some r') : fits w r'.consumer = true := by
  rcases popStep_cases h with ⟨-, hc, rfl⟩ | ⟨-, tail, out, hc, rfl⟩ | ⟨-, hc, rfl⟩ | ⟨j, head, tail, -, -, hc, rfl⟩ |
    ⟨j, head, tail, -, -, hc, rfl⟩ | ⟨k, tail, out, -, hc, rfl⟩
  · rw [hc] at hf; cases w <;> first | rfl | cases hf
  · rw [hc] at hf; cases w <;> first | rfl | cases hf
  · rw [hc] at hf; cases w <;> first | rfl | cases hf
  · rw [hc] at hf
    show fits w (if tail = head then .popReturn none else .popCopy tail) = true
    split <;> (cases w <;> first | rfl | cases hf)
  · rw [hc] at hf; cases w <;> first | rfl | cases hf
  · rw [hc] at hf; cases w <;> first | rfl | cases hf

variable {s t : CommandPath T}

theorem fits_idle {w : WaiterPc T} {c : ConsumerPc T} (hf : fits w c = true) (hc : checking w = false)
    (hp : w ≠ .pop) : c = .idle := by
  cases w with
  | check x => cases hc
  | pop => exact absurd rfl hp
  | _ => cases c <;> first | rfl | cases hf

theorem WaiterFits.same (h : WaiterFits s) (hw : t.waiter = s.waiter) (hc : t.ring.consumer = s.ring.consumer)
    (hm : t.waitMutex = s.waitMutex) : WaiterFits t :=
  ⟨by rw [hw, hc]; exact h.call, by rw [hw, hm]; exact h.mutex⟩

/-- A move of the consumer's that is inside no call of the ring. -/
theorem WaiterFits.goto (h : WaiterFits s) (hc : checking s.waiter = false) (hp : s.waiter ≠ .pop)
    (hw : fits t.waiter (.idle : ConsumerPc T) = true) (hr : t.ring = s.ring)
    (hm : t.waitMutex = holdsMutex t.waiter) : WaiterFits t :=
  ⟨by rw [hr, fits_idle h.call hc hp]; exact hw, hm⟩

theorem WaiterFits.callEmpty {c : WaitCheck} (hm : s.waitMutex = true) (hst : s.callEmpty c = some t) :
    WaiterFits t := by
  obtain ⟨r, hr, rfl⟩ := callEmpty_eq hst
  refine ⟨?_, hm⟩
  simp only [Spsc.step] at hr
  split at hr
  · cases hr
    show emptying (if !s.ring.initialized then .emptyReturn true else .emptyLoadTail) = true
    split <;> rfl
  · cases hr

theorem WaiterFits.checked {c : WaitCheck} {e : Bool} (h : WaiterFits s) (hw : s.waiter = .check c)
    (hc : s.ring.consumer = .emptyReturn e) (hst : s.checked c e = some t) : WaiterFits t := by
  have hm : s.waitMutex = true := by rw [h.mutex, hw]; rfl
  obtain ⟨r, hr, hst⟩ := Option.bind_eq_some_iff.1 hst
  obtain rfl := consumer_return (.inl ⟨e, hc⟩) hr
  have hpop : ({ s.ring with consumer := .idle } : Spsc T).step .callPop =
      some { s.ring with consumer := if !s.ring.initialized then .popReturn none else .popLoadTail } := rfl
  cases c with
  | loop =>
    cases e with
    | true => cases hst; exact ⟨rfl, hm⟩
    | false => exact .callEmpty (s := { s with ring := { s.ring with consumer := .idle } }) hm hst
  | deadline =>
    cases e with
    | true => cases hst; exact ⟨rfl, hm⟩
    | false => exact .callEmpty (s := { s with ring := { s.ring with consumer := .idle } }) hm hst
  | recheck =>
    cases e with
    | true => cases hst; exact ⟨rfl, hm⟩
    | false =>
      obtain ⟨r', hr', rfl⟩ := Option.map_eq_some_iff.1 hst
      rw [hpop] at hr'
      cases hr'
      refine ⟨?_, hm⟩
      show popping (if !s.ring.initialized then .popReturn none else .popLoadTail) = true
      split <;> rfl

/-- A step of the sender's, which may wake the consumer. -/
theorem WaiterFits.sender (h : WaiterFits s) {a : CommandAct T} (ha : bySender a = true) (hst : s.step a = some t) :
    WaiterFits t := by
  obtain ⟨hc, hm, hw | ⟨hb, hw⟩⟩ := sender_side ha hst
  · exact h.same hw hc hm
  · have hcall := h.call
    have hmutex := h.mutex
    rw [hb] at hcall hmutex
    refine ⟨?_, ?_⟩
    · rw [hw, hc, fits_idle hcall rfl (fun he => by cases he)]
      rfl
    · rw [hm, hw, hmutex]
      rfl

theorem waiterFits_step {a : CommandAct T} (h : WaiterFits s) (hst : s.step a = some t) : WaiterFits t := by
  have hcall := h.call
  cases a with
  | sendCommand cmd => exact h.sender rfl hst
  | sender b => exact h.sender rfl hst
  | pushed => exact h.sender rfl hst
  | notifyOne => exact h.sender rfl hst
  | sent => exact h.sender rfl hst
  | waitPopFor =>
    simp only [step] at hst
    split at hst
    · rename_i hw
      cases hst
      exact h.goto (by rw [hw]; rfl) (by rw [hw]; exact fun he => by cases he) rfl rfl (by rw [h.mutex, hw]; rfl)
    · cases hst
  | lock =>
    simp only [step] at hst
    split at hst
    · rename_i hw hm
      split at hst
      · cases hst
        exact h.goto (by rw [hw]; rfl) (by rw [hw]; exact fun he => by cases he) rfl rfl rfl
      · exact .callEmpty (s := { s with waitMutex := true }) rfl hst
    · cases hst
  | waiter b =>
    simp only [step] at hst
    split at hst
    · obtain ⟨r, hr, rfl⟩ := Option.map_eq_some_iff.1 hst
      exact ⟨fits_popStep hcall hr, h.mutex⟩
    · obtain ⟨r, hr, rfl⟩ := Option.map_eq_some_iff.1 hst
      exact ⟨fits_popStep hcall hr, h.mutex⟩
    · cases hst
  | checked =>
    simp only [step] at hst
    split at hst
    · rename_i c e hw hc; exact h.checked hw hc hst
    · cases hst
  | block =>
    simp only [step] at hst
    split at hst
    · rename_i hw
      cases hst
      exact h.goto (by rw [hw]; rfl) (by rw [hw]; exact fun he => by cases he) rfl rfl rfl
    · cases hst
  | wake =>
    simp only [step] at hst
    split at hst
    · rename_i hw
      cases hst
      exact h.goto (by rw [hw]; rfl) (by rw [hw]; exact fun he => by cases he) rfl rfl (by rw [h.mutex, hw]; rfl)
    · cases hst
  | relock timedOut =>
    simp only [step] at hst
    split at hst
    · exact .callEmpty (s := { s with waitMutex := true }) rfl hst
    · cases hst
  | popped =>
    simp only [step] at hst
    split at hst
    · rename_i out hw hc
      obtain ⟨r, hr, rfl⟩ := Option.map_eq_some_iff.1 hst
      obtain rfl := consumer_return (.inr ⟨out, hc⟩) hr
      exact ⟨rfl, by rw [h.mutex, hw]; rfl⟩
    · cases hst
  | unlock =>
    simp only [step] at hst
    split at hst
    · rename_i out hw
      cases hst
      exact h.goto (by rw [hw]; rfl) (by rw [hw]; exact fun he => by cases he) rfl rfl rfl
    · cases hst

section Reachable

variable [Inhabited T] {rb rb' : SpScRingBuffer T} {c : SizeT}

theorem reachable_waiterFits (hs : (machine rb).Reachable s) : WaiterFits s :=
  hs.invariant (I := WaiterFits) ⟨rfl, rfl⟩ (fun _ _ _ h hst => waiterFits_step h hst)

end Reachable

/-! ## How far the consumer is from its next pop -/

/-- The commands that have been sent and not popped. -/
def undelivered (s : CommandPath T) : Nat := s.ring.published.length - s.ring.delivered.length

/-- The steps of the consumer, by loads that return the newest store; none of them but the timeout's is another's. -/
def consumes (s : CommandPath T) : CommandAct T → Bool
  | .waitPopFor                => true
  | .lock                      => true
  | .waiter (.consumerLoads j) => j = s.ring.head.newest
  | .waiter _                  => true
  | .checked                   => true
  | .block                     => true
  | .wake                      => true
  | .relock _                  => true
  | .popped                    => true
  | .unlock                    => true
  | _                          => false

/-- The steps of the consumer while there is a command to pop. -/
def productive (s : CommandPath T) (a : CommandAct T) : Bool := s.consumes a && 0 < s.undelivered

/-- The steps before the consumer until it has stored `m_tail`, if its loads return the newest store. -/
def toPop : WaiterPc T → ConsumerPc T → Nat
  | .pop, .popStore _ _               => 1
  | .pop, .popCopy _                  => 2
  | .pop, .popLoadHead _              => 3
  | .pop, .popLoadTail                => 4
  | .check .recheck, .emptyReturn false => 5
  | .check .recheck, .emptyLoadHead _ => 6
  | .check .recheck, .emptyLoadTail   => 7
  | .check .recheck, _                => 14
  | .check _, .emptyReturn false      => 8
  | .check _, .emptyLoadHead _        => 9
  | .check _, .emptyLoadTail          => 10
  | .lock, _                          => 11
  | .woken, _                         => 11
  | .idle, _                          => 12
  | .blocked, _                       => 12
  | .block, _                         => 13
  | .ret _, _                         => 13
  | _, _                              => 14

def load (s : CommandPath T) : Nat := 14 * s.undelivered + toPop s.waiter s.ring.consumer

/-- **With something to pop, the newest store of `m_head` is not the consumer's own index.** -/
theorem tail_ne_head {n : Nat} {r : Spsc T} (h : Spsc.Inv n r) (hlt : r.tail.newest < r.head.newest) {tail head : SizeT}
    (ht : tail.toNat = r.tail.newest % n) (hl : r.head.stores[r.head.newest]? = some head) : tail ≠ head := by
  intro heq
  have hhead := h.head _ _ hl
  have hroom := h.room
  rw [heq] at ht
  exact SpScRingBuffer.mod_ne_mod hlt (by omega) (ht.symm.trans hhead)

theorem newest_lt {n : Nat} (h : Spsc.Inv n s.ring) (hu : 0 < s.undelivered) :
    s.ring.tail.newest < s.ring.head.newest := by
  unfold undelivered at hu
  rw [h.published, h.delivered] at hu
  omega

/-! ## Each step brings it nearer -/

/-- A step of the consumer's that publishes nothing and brings it nearer to its next pop. -/
structure Nearer (s t : CommandPath T) : Prop where
  published : t.ring.published = s.ring.published
  load      : t.load < s.load

theorem Nearer.of_place (hp : t.ring.published = s.ring.published) (hd : t.ring.delivered = s.ring.delivered)
    (hlt : toPop t.waiter t.ring.consumer < toPop s.waiter s.ring.consumer) : Nearer s t := by
  refine ⟨hp, ?_⟩
  unfold CommandPath.load undelivered
  rw [hp, hd]
  omega

/-- **What the return of `empty` leads to**, on a ring that is initialized. -/
theorem checked_cases {c : WaitCheck} {e : Bool} (hi : s.ring.initialized = true)
    (hc : s.ring.consumer = .emptyReturn e) (hst : s.checked c e = some t) :
    t.ring.published = s.ring.published ∧ t.ring.delivered = s.ring.delivered ∧
    ((e = false ∧ c ≠ .recheck ∧ t.waiter = .check .recheck ∧ t.ring.consumer = .emptyLoadTail) ∨
      (e = false ∧ c = .recheck ∧ t.waiter = .pop ∧ t.ring.consumer = .popLoadTail) ∨
      (e = true ∧ (t.waiter = .block ∨ t.waiter = .ret none))) := by
  obtain ⟨r, hr, hst⟩ := Option.bind_eq_some_iff.1 hst
  obtain rfl := consumer_return (.inl ⟨e, hc⟩) hr
  have hagain : (callEmpty { s with ring := { s.ring with consumer := .idle } } .recheck) = some t →
      t.ring.published = s.ring.published ∧ t.ring.delivered = s.ring.delivered ∧
        t.waiter = .check .recheck ∧ t.ring.consumer = .emptyLoadTail := by
    intro hcall
    obtain ⟨r', hr', rfl⟩ := callEmpty_eq hcall
    obtain rfl := callEmpty_consumer (r := { s.ring with consumer := .idle }) hi hr'
    exact ⟨rfl, rfl, rfl, rfl⟩
  cases c with
  | loop =>
    cases e with
    | true => cases hst; exact ⟨rfl, rfl, .inr (.inr ⟨rfl, .inl rfl⟩)⟩
    | false =>
      obtain ⟨hp, hd, hw, hc'⟩ := hagain hst
      exact ⟨hp, hd, .inl ⟨rfl, (fun he => by cases he), hw, hc'⟩⟩
  | deadline =>
    cases e with
    | true => cases hst; exact ⟨rfl, rfl, .inr (.inr ⟨rfl, .inr rfl⟩)⟩
    | false =>
      obtain ⟨hp, hd, hw, hc'⟩ := hagain hst
      exact ⟨hp, hd, .inl ⟨rfl, (fun he => by cases he), hw, hc'⟩⟩
  | recheck =>
    cases e with
    | true => cases hst; exact ⟨rfl, rfl, .inr (.inr ⟨rfl, .inr rfl⟩)⟩
    | false =>
      obtain ⟨r', hr', rfl⟩ := Option.map_eq_some_iff.1 hst
      simp only [Spsc.step, hi] at hr'
      cases hr'
      exact ⟨rfl, rfl, .inr (.inl ⟨rfl, rfl, rfl, rfl⟩)⟩

theorem Nearer.checked {c : WaitCheck} {e : Bool} (hi : s.ring.initialized = true) (hw : s.waiter = .check c)
    (hc : s.ring.consumer = .emptyReturn e) (hst : s.checked c e = some t) : Nearer s t := by
  obtain ⟨hp, hd, ⟨rfl, hne, hw', hc'⟩ | ⟨rfl, rfl, hw', hc'⟩ | ⟨rfl, hw'⟩⟩ := checked_cases hi hc hst
  · refine .of_place hp hd ?_
    rw [hw, hc, hw', hc']
    cases c with
    | recheck => exact absurd rfl hne
    | _ => exact Nat.lt_succ_self 7
  · refine .of_place hp hd ?_
    rw [hw, hc, hw', hc']
    exact Nat.lt_succ_self 4
  · refine .of_place hp hd ?_
    rw [hw, hc]
    rcases hw' with hw' | hw' <;> (rw [hw']; cases c <;> exact Nat.lt_succ_self 13)

/-- The call of `empty`, from where nothing of the ring's is under way. -/
theorem Nearer.callEmpty {c : WaitCheck} (hi : s.ring.initialized = true) (hc : c ≠ .recheck)
    (hw : toPop s.waiter s.ring.consumer = 11) {u : CommandPath T} (hu : u.ring = s.ring)
    (hst : u.callEmpty c = some t) : Nearer s t := by
  obtain ⟨r, hr, rfl⟩ := callEmpty_eq hst
  rw [hu] at hr
  obtain rfl := callEmpty_consumer hi hr
  refine .of_place rfl rfl ?_
  rw [hw]
  cases c with
  | recheck => exact absurd rfl hc
  | _ => exact Nat.lt_succ_self 10

/-- **A step inside `empty` or `pop`**: a load of the newest store finds something to pop. -/
theorem Nearer.popStep {n : Nat} {r : Spsc T} {a : SpscAct T} (hinv : Spsc.Inv n s.ring) (hf : WaiterFits s)
    (hu : 0 < s.undelivered) (hnewest : ∀ j, a = .consumerLoads j → j = s.ring.head.newest)
    (hst : popStep s.ring a = some r) : Nearer s { s with ring := r } := by
  have hcall := hf.call
  have hcons := hinv.consumer
  have hlt := newest_lt hinv hu
  rcases popStep_cases hst with ⟨-, hc, rfl⟩ | ⟨-, tail, out, hc, rfl⟩ | ⟨-, hc, rfl⟩ |
    ⟨j, head, tail, rfl, hl, hc, rfl⟩ | ⟨j, head, tail, rfl, hl, hc, rfl⟩ | ⟨k, tail, out, -, hc, rfl⟩
  · refine .of_place rfl rfl ?_
    rw [hc] at hcall ⊢
    cases hw : s.waiter with
    | pop => exact Nat.lt_succ_self 3
    | _ => rw [hw] at hcall; cases hcall
  · -- the pop: one command less
    rw [hc] at hcall
    cases hw : s.waiter with
    | pop =>
      refine ⟨rfl, ?_⟩
      unfold CommandPath.load
      unfold undelivered at *
      rw [hw, hc]
      show 14 * (s.ring.published.length - (s.ring.delivered ++ [out]).length) + 14 <
        14 * (s.ring.published.length - s.ring.delivered.length) + 1
      rw [List.length_append, List.length_singleton]
      omega
    | _ => rw [hw] at hcall; cases hcall
  · refine .of_place rfl rfl ?_
    rw [hc] at hcall ⊢
    cases hw : s.waiter with
    | check c => cases c <;> exact Nat.lt_succ_self _
    | _ => rw [hw] at hcall; cases hcall
  · obtain rfl := hnewest j rfl
    rw [hc] at hcons hcall
    have hne : tail ≠ head := tail_ne_head hinv hlt hcons hl
    refine .of_place rfl rfl ?_
    rw [hc]
    show toPop s.waiter (if tail = head then .popReturn none else .popCopy tail) < _
    rw [if_neg hne]
    cases hw : s.waiter with
    | pop => exact Nat.lt_succ_self 2
    | _ => rw [hw] at hcall; cases hcall
  · obtain rfl := hnewest j rfl
    rw [hc] at hcons hcall
    have hne : tail ≠ head := tail_ne_head hinv hlt hcons hl
    refine .of_place rfl rfl ?_
    rw [hc]
    show toPop s.waiter (.emptyReturn (decide (tail = head))) < _
    rw [decide_eq_false hne]
    cases hw : s.waiter with
    | check c => cases c <;> exact Nat.lt_succ_self _
    | _ => rw [hw] at hcall; cases hcall
  · refine .of_place rfl rfl ?_
    rw [hc] at hcall ⊢
    cases hw : s.waiter with
    | pop => exact Nat.lt_succ_self 1
    | _ => rw [hw] at hcall; cases hcall

/-- **Every productive step brings the consumer nearer to its next pop.** -/
theorem nearer_of_step {n : Nat} {a : CommandAct T} (hinv : Spsc.Inv n s.ring) (hf : WaiterFits s)
    (hprod : s.productive a = true) (hst : s.step a = some t) : Nearer s t := by
  obtain ⟨hok, hu⟩ := (Bool.and_eq_true _ _).mp hprod
  have hu : 0 < s.undelivered := of_decide_eq_true hu
  have hnewest : ∀ b, a = .waiter b → ∀ j, b = .consumerLoads j → j = s.ring.head.newest := by
    rintro b rfl j rfl
    exact of_decide_eq_true hok
  cases a with
  | waitPopFor =>
    simp only [step] at hst
    split at hst
    · rename_i hw
      cases hst
      refine .of_place rfl rfl ?_
      rw [hw]
      exact Nat.lt_succ_self 11
    · cases hst
  | lock =>
    simp only [step] at hst
    split at hst
    · rename_i hw hm
      rw [hinv.ready] at hst
      exact Nearer.callEmpty (c := .loop) (u := { s with waitMutex := true }) hinv.ready (fun he => by cases he)
        (by rw [hw]; rfl) rfl hst
    · cases hst
  | waiter b =>
    simp only [step] at hst
    split at hst
    · obtain ⟨r, hr, rfl⟩ := Option.map_eq_some_iff.1 hst
      exact Nearer.popStep hinv hf hu (hnewest b rfl) hr
    · obtain ⟨r, hr, rfl⟩ := Option.map_eq_some_iff.1 hst
      exact Nearer.popStep hinv hf hu (hnewest b rfl) hr
    · cases hst
  | checked =>
    simp only [step] at hst
    split at hst
    · rename_i c e hw hc; exact Nearer.checked hinv.ready hw hc hst
    · cases hst
  | block =>
    simp only [step] at hst
    split at hst
    · rename_i hw
      cases hst
      refine .of_place rfl rfl ?_
      rw [hw]
      exact Nat.lt_succ_self 12
    · cases hst
  | wake =>
    simp only [step] at hst
    split at hst
    · rename_i hw
      cases hst
      refine .of_place rfl rfl ?_
      rw [hw]
      exact Nat.lt_succ_self 11
    · cases hst
  | relock timedOut =>
    simp only [step] at hst
    split at hst
    · rename_i hw hm
      exact Nearer.callEmpty (u := { s with waitMutex := true }) hinv.ready (by cases timedOut <;> decide)
        (by rw [hw]; rfl) rfl hst
    · cases hst
  | popped =>
    simp only [step] at hst
    split at hst
    · rename_i out hw hc
      obtain ⟨r, hr, rfl⟩ := Option.map_eq_some_iff.1 hst
      obtain rfl := consumer_return (.inr ⟨out, hc⟩) hr
      refine .of_place rfl rfl ?_
      rw [hw, hc]
      exact Nat.lt_succ_self 13
    · cases hst
  | unlock =>
    simp only [step] at hst
    split at hst
    · rename_i out hw
      cases hst
      refine .of_place rfl rfl ?_
      rw [hw]
      exact Nat.lt_succ_self 12
    · cases hst
  | _ => cases hok

/-! ## There is one as long as there is a command to pop -/

/-- A copy of a slot that holds a command finds a write to read. -/
theorem exists_popCopy {n : Nat} {r : Spsc T} (h : Spsc.Inv n r) {tail : SizeT} (hc : r.consumer = .popCopy tail) :
    ∃ k, (popStep r (.consumerReads k)).isSome = true := by
  have hcons := h.consumer
  rw [hc] at hcons
  obtain ⟨htail, hseen⟩ := hcons
  have hlt : r.tail.newest < r.published.length := by
    have := h.behind
    rw [h.published]
    omega
  have hlast := h.slots _ _ (Nat.le_refl _) (List.getElem?_eq_getElem hlt)
  rw [← htail, List.getLast?_eq_getElem?] at hlast
  refine ⟨(r.slots tail.toNat).length - 1, ?_⟩
  have hread : Readable (r.slots tail.toNat) r.headSeen ((r.slots tail.toNat).length - 1) := by
    intro w hw
    rw [List.drop_of_length_le (by omega)] at hw
    cases hw
  simp only [popStep, Spsc.step, hc, hlast, if_pos hread, Option.isSome_some]

theorem exists_callEmpty {c : WaitCheck} {u : CommandPath T} (hc : u.ring.consumer = .idle) :
    (u.callEmpty c).isSome = true := by
  simp only [callEmpty, Spsc.step, hc, Option.map_some, Option.isSome_some]

/-- The steps inside `wait_pop_for`. -/
def inWait : CommandAct T → Bool
  | .lock     => true
  | .waiter _ => true
  | .checked  => true
  | .block    => true
  | .wake     => true
  | .relock _ => true
  | .popped   => true
  | _         => false

/-- **Wherever the consumer stands in `wait_pop_for`, it can go on**, at its timeout if need be. -/
theorem exists_inWait {n : Nat} (hinv : Spsc.Inv n s.ring) (hf : WaiterFits s) (hidle : s.waiter ≠ .idle)
    (hret : ∀ out, s.waiter ≠ .ret out) :
    ∃ a, inWait a = true ∧ a ≠ .relock false ∧ s.consumes a = true ∧ (s.step a).isSome = true := by
  have hcall := hf.call
  have hmutex := hf.mutex
  have hhead := s.ring.head.getElem?_newest
  have hseen : s.ring.headSeen ≤ s.ring.head.newest := hinv.behind.2
  cases hw : s.waiter with
  | idle => exact absurd hw hidle
  | lock =>
    rw [hw] at hcall hmutex
    have hc := fits_idle hcall rfl (fun he => by cases he)
    refine ⟨.lock, rfl, (fun he => by cases he), rfl, ?_⟩
    simp only [step, hw, hmutex, holdsMutex, hinv.ready, Bool.not_true, if_neg Bool.false_ne_true]
    exact exists_callEmpty hc
  | check c =>
    rw [hw] at hcall
    cases hc : s.ring.consumer with
    | emptyLoadTail =>
      refine ⟨.waiter .consumer, rfl, (fun he => by cases he), rfl, ?_⟩
      simp only [step, hw, popStep, hc, Spsc.step, Spsc.consumerStep, Option.map_some, Option.isSome_some]
    | emptyLoadHead tail =>
      refine ⟨.waiter (.consumerLoads s.ring.head.newest), rfl, (fun he => by cases he), decide_eq_true rfl, ?_⟩
      simp only [step, hw, popStep, hc, Spsc.step, hhead, if_pos hseen, Spsc.consumerLoad, Option.map_some,
        Option.isSome_some]
    | emptyReturn e =>
      refine ⟨.checked, rfl, (fun he => by cases he), rfl, ?_⟩
      have hstep : s.ring.step .consumer = some { s.ring with consumer := .idle } := by
        simp only [Spsc.step, Spsc.consumerStep, hc]
      simp only [step, hw, hc, checked, hstep, Option.bind_some]
      cases c <;> cases e <;> rfl
    | _ => rw [hc] at hcall; cases hcall
  | block =>
    refine ⟨.block, rfl, (fun he => by cases he), rfl, ?_⟩
    simp only [step, hw, Option.isSome_some]
  | blocked =>
    refine ⟨.wake, rfl, (fun he => by cases he), rfl, ?_⟩
    simp only [step, hw, Option.isSome_some]
  | woken =>
    rw [hw] at hcall hmutex
    have hc := fits_idle hcall rfl (fun he => by cases he)
    refine ⟨.relock true, rfl, (fun he => by cases he), rfl, ?_⟩
    simp only [step, hw, hmutex, holdsMutex]
    exact exists_callEmpty hc
  | pop =>
    rw [hw] at hcall
    cases hc : s.ring.consumer with
    | popLoadTail =>
      refine ⟨.waiter .consumer, rfl, (fun he => by cases he), rfl, ?_⟩
      simp only [step, hw, popStep, hc, Spsc.step, Spsc.consumerStep, Option.map_some, Option.isSome_some]
    | popLoadHead tail =>
      refine ⟨.waiter (.consumerLoads s.ring.head.newest), rfl, (fun he => by cases he), decide_eq_true rfl, ?_⟩
      simp only [step, hw, popStep, hc, Spsc.step, hhead, if_pos hseen, Spsc.consumerLoad]
      split <;> rfl
    | popCopy tail =>
      obtain ⟨k, hk⟩ := exists_popCopy hinv hc
      obtain ⟨r, hr⟩ := Option.isSome_iff_exists.1 hk
      refine ⟨.waiter (.consumerReads k), rfl, (fun he => by cases he), rfl, ?_⟩
      simp only [step, hw, hr, Option.map_some, Option.isSome_some]
    | popStore tail out =>
      refine ⟨.waiter .consumer, rfl, (fun he => by cases he), rfl, ?_⟩
      simp only [step, hw, popStep, hc, Spsc.step, Spsc.consumerStep, Option.map_some, Option.isSome_some]
    | popReturn out =>
      refine ⟨.popped, rfl, (fun he => by cases he), rfl, ?_⟩
      simp only [step, hw, hc, Spsc.step, Spsc.consumerStep, Option.map_some, Option.isSome_some]
    | _ => rw [hc] at hcall; cases hcall
  | ret out => exact absurd hw (hret out)

/-- With a command to pop, it can go on from its calls of `wait_pop_for` too. -/
theorem exists_productive {n : Nat} (hinv : Spsc.Inv n s.ring) (hf : WaiterFits s) (hu : 0 < s.undelivered) :
    ∃ a, s.productive a = true ∧ (s.step a).isSome = true := by
  have hok : ∀ a, s.consumes a = true → s.productive a = true := by
    intro a ha
    unfold productive
    rw [ha, decide_eq_true hu]; rfl
  by_cases hidle : s.waiter = .idle
  · refine ⟨.waitPopFor, hok _ rfl, ?_⟩
    simp only [step, hidle, Option.isSome_some]
  · by_cases hret : ∃ out, s.waiter = .ret out
    · obtain ⟨out, hret⟩ := hret
      refine ⟨.unlock, hok _ rfl, ?_⟩
      simp only [step, hret, Option.isSome_some]
    · obtain ⟨a, -, -, ha, hsome⟩ := exists_inWait hinv hf hidle (not_exists.1 hret)
      exact ⟨a, hok a ha, hsome⟩

/-! ## The drain -/

theorem toPop_le (w : WaiterPc T) (r : ConsumerPc T) : toPop w r ≤ 14 := by
  unfold toPop
  split <;> decide

theorem delivered_of_undelivered {n : Nat} (hinv : Spsc.Inv n s.ring) (hu : s.undelivered = 0) :
    s.ring.delivered = s.ring.published := by
  unfold undelivered at hu
  have hle : s.ring.published.length ≤ s.ring.tail.newest := by
    rw [← hinv.delivered]
    omega
  rw [hinv.fifo, List.take_of_length_le hle]

section Drain

variable [Inhabited T] {rb rb' : SpScRingBuffer T} {c : SizeT}

/-- What the productive steps keep. -/
structure Draining (rb : SpScRingBuffer T) (s₀ s : CommandPath T) : Prop where
  reachable : (machine rb).Reachable s
  published : s.ring.published = s₀.ring.published

theorem draining_step (hinit : rb.init c = (rb', true)) {s₀ : CommandPath T} {a : CommandAct T}
    (h : Draining rb' s₀ s) (hst : ((machine rb').only productive).step s a = some t) :
    Draining rb' s₀ t ∧ t.load < s.load := by
  obtain ⟨hprod, hst⟩ := Machine.only_step.1 hst
  have hinv := Spsc.reachable_inv hinit (reachable_ring h.reachable)
  have hnearer := nearer_of_step hinv (reachable_waiterFits h.reachable) hprod hst
  exact ⟨⟨.step a h.reachable hst, hnearer.published.trans h.published⟩, hnearer.load⟩

/-- **No command is stuck, in whatever order the consumer's steps and its timeouts fall.**  Wherever it stands, a lost
wake-up behind it included, the consumer pops every command that has been pushed, by at most fourteen steps a command
once its loads return the newest store, and stops short of none. -/
theorem commands_popped (hinit : rb.init c = (rb', true)) {s s' : CommandPath T} (hs : (machine rb').Reachable s)
    (as : List (CommandAct T)) (hrun : ((machine rb').only productive).runFrom s as = some s') :
    as.length ≤ 14 * (s.ring.published.length - s.ring.delivered.length) + 14 ∧
    s'.ring.published = s.ring.published ∧
    ((∃ a t, ((machine rb').only productive).step s' a = some t) ∨ s'.ring.delivered = s.ring.published) := by
  obtain ⟨hend, hle⟩ := Machine.length_le_of_measure (P := Draining rb' s) load
    (fun _ _ _ hu hst => draining_step hinit hu hst) as ⟨hs, rfl⟩ hrun
  have hinv := Spsc.reachable_inv hinit (reachable_ring hend.reachable)
  refine ⟨?_, hend.published, ?_⟩
  · have hbound := toPop_le s.waiter s.ring.consumer
    unfold load undelivered at hle
    omega
  · by_cases hu : s'.undelivered = 0
    · right
      rw [← hend.published]
      exact delivered_of_undelivered hinv hu
    · left
      obtain ⟨a, hprod, hsome⟩ := exists_productive hinv (reachable_waiterFits hend.reachable) (Nat.pos_of_ne_zero hu)
      obtain ⟨t, hst⟩ := Option.isSome_iff_exists.1 hsome
      exact ⟨a, t, Machine.only_step.2 ⟨hprod, hst⟩⟩

/-- The observer asleep with a command in its buffer, its wake-up lost: the timeout wakes it, and it pops. -/
theorem commands_popped_lost : ∃ (s s' : CommandPath ObserverCommand) (as : List (CommandAct ObserverCommand)),
    s.LostWakeup ∧ as.length = 12 ∧ as.length ≤ 14 * (s.ring.published.length - s.ring.delivered.length) + 14 ∧
    ((∃ a t, ((machine cmdBuffer).only productive).step s' a = some t) ∨ s'.ring.delivered = s.ring.published) := by
  obtain ⟨s, hs⟩ : ∃ s, (machine cmdBuffer).runFrom (machine cmdBuffer).init
      [.waitPopFor, .lock, .waiter .consumer, .waiter (.consumerLoads 0),
       .sendCommand { type := .stressMode }, .sender .producer, .sender (.producerLoads 0), .sender .producer,
       .sender .producer, .pushed, .notifyOne, .sent, .checked, .block] = some s := ⟨_, rfl⟩
  obtain ⟨s', hrun⟩ : ∃ s', ((machine cmdBuffer).only productive).runFrom s
      [.wake, .relock true, .waiter .consumer, .waiter (.consumerLoads 1), .checked, .waiter .consumer,
       .waiter (.consumerLoads 1), .checked, .waiter .consumer, .waiter (.consumerLoads 1), .waiter (.consumerReads 1),
       .waiter .consumer] = some s' := by cases hs; exact ⟨_, rfl⟩
  have hlost : s.LostWakeup := by cases hs; exact ⟨rfl, by decide, rfl⟩
  have hinit : ({} : SpScRingBuffer ObserverCommand).init 8 = (cmdBuffer, true) := rfl
  obtain ⟨hlen, -, hend⟩ := commands_popped hinit (Machine.reachable_of_run _ hs) _ hrun
  exact ⟨s, s', _, hlost, rfl, hlen, hend⟩

end Drain

end CommandPath
end ThreadMessaging

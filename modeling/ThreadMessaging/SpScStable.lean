import ThreadMessaging.SpScWait
/-!
# Checks of the ring buffer that stay true

Each side moves one of the two indices, and the other side's moves only help it: more to pop, more room to push
(`threading/spScRingBuffer.hpp`).  So what `empty()` has denied to the consumer, or `full()` to the producer, stays
denied until that side's next pop or push, which succeeds (`PopSure`, `PushSure`), loads that lag included.

`wait_pop_for` rests on it: after a predicate that came out true, the second check of `empty()` and the pop cannot fail.
-/
namespace ThreadMessaging
namespace Spsc

variable {T : Type}

def byProducer : SpscAct T → Bool
  | .callPush _      => true
  | .callFull        => true
  | .producer        => true
  | .producerLoads _ => true
  | _                => false

/-- **The consumer has seen a value that it has not popped**, or is returning from the pop of it. -/
def PopSure (s : Spsc T) : Prop :=
  match s.consumer with
  | .popReturn out => ∃ v, out = some v ∧ s.delivered.getLast? = some v
  | .emptyReturn e => e = false ∧ s.tail.newest < s.headSeen
  | _              => s.tail.newest < s.headSeen

/-- **The producer has seen a free slot beside the one kept free**, or is returning from the push into it. -/
def PushSure (n : Nat) (s : Spsc T) : Prop :=
  match s.producer with
  | .pushReturn ok => ok = true
  | .fullReturn f  => f = false ∧ s.head.newest + 2 ≤ s.tailSeen + n
  | _              => s.head.newest + 2 ≤ s.tailSeen + n

/-! ## A side's step leaves the other side's view alone -/

theorem producer_frame {s t : Spsc T} {a : SpscAct T} (ha : byProducer a = true) (hst : s.step a = some t) :
    t.tail = s.tail ∧ t.headSeen = s.headSeen ∧ t.consumer = s.consumer ∧ t.delivered = s.delivered := by
  cases a with
  | callPush value =>
    simp only [step] at hst
    split at hst
    · cases hst; exact ⟨rfl, rfl, rfl, rfl⟩
    · cases hst
  | callFull =>
    simp only [step] at hst
    split at hst
    · cases hst; exact ⟨rfl, rfl, rfl, rfl⟩
    · cases hst
  | producer =>
    simp only [step, producerStep] at hst
    split at hst
    all_goals first
      | (cases hst; exact ⟨rfl, rfl, rfl, rfl⟩)
      | cases hst
  | producerLoads j =>
    simp only [step] at hst
    split at hst
    · split at hst
      · unfold producerLoad at hst
        split at hst
        · dsimp only at hst
          split at hst <;> (cases hst; exact ⟨rfl, rfl, rfl, rfl⟩)
        · cases hst; exact ⟨rfl, rfl, rfl, rfl⟩
        · cases hst
      · cases hst
    · cases hst
  | _ => cases ha

theorem consumer_frame {s t : Spsc T} {a : SpscAct T} (ha : byProducer a = false) (hst : s.step a = some t) :
    t.head = s.head ∧ t.tailSeen = s.tailSeen ∧ t.producer = s.producer := by
  cases a with
  | callPop =>
    simp only [step] at hst
    split at hst
    · cases hst; exact ⟨rfl, rfl, rfl⟩
    · cases hst
  | callEmpty =>
    simp only [step] at hst
    split at hst
    · cases hst; exact ⟨rfl, rfl, rfl⟩
    · cases hst
  | consumer =>
    simp only [step, consumerStep] at hst
    split at hst
    all_goals first
      | (cases hst; exact ⟨rfl, rfl, rfl⟩)
      | cases hst
  | consumerLoads j =>
    simp only [step] at hst
    split at hst
    · split at hst
      · unfold consumerLoad at hst
        split at hst
        · split at hst <;> (cases hst; exact ⟨rfl, rfl, rfl⟩)
        · cases hst; exact ⟨rfl, rfl, rfl⟩
        · cases hst
      · cases hst
    · cases hst
  | consumerReads k =>
    simp only [step] at hst
    split at hst
    · split at hst
      · split at hst
        · cases hst; exact ⟨rfl, rfl, rfl⟩
        · cases hst
      · cases hst
    · cases hst
  | _ => cases ha

/-! ## What a side is sure of -/

section Sure

variable {n : Nat} {s t : Spsc T}

theorem PopSure.producer {a : SpscAct T} (h : PopSure s) (ha : byProducer a = true) (hst : s.step a = some t) :
    PopSure t := by
  obtain ⟨htail, hseen, hcons, hdel⟩ := producer_frame ha hst
  unfold PopSure at h ⊢
  rw [hcons, htail, hseen, hdel]
  exact h

theorem PushSure.consumer {a : SpscAct T} (h : PushSure n s) (ha : byProducer a = false) (hst : s.step a = some t) :
    PushSure n t := by
  obtain ⟨hhead, hseen, hprod⟩ := consumer_frame ha hst
  unfold PushSure at h ⊢
  rw [hprod, hhead, hseen]
  exact h

/-- **A load of `m_head` shows the consumer a value it has seen already.** -/
theorem Inv.tail_ne_head (h : Inv n s) {j : Nat} {tail head : SizeT} (hsure : s.tail.newest < s.headSeen)
    (hj : s.headSeen ≤ j) (hl : s.head.stores[j]? = some head) (htail : tail.toNat = s.tail.newest % n) :
    tail ≠ head := by
  have hle : j ≤ s.head.newest := Atomic.Loads.le_newest (show s.head.Loads s.headSeen j head from ⟨hj, hl⟩)
  have hroom := h.room
  intro he
  rw [he, h.head j head hl] at htail
  exact SpScRingBuffer.mod_ne_mod (show s.tail.newest < j by omega) (by omega) htail.symm

/-- **A load of `m_tail` shows the producer the slot it has seen to be free.** -/
theorem Inv.next_ne_tail (h : Inv n s) {j : Nat} {head tail : SizeT} (hsure : s.head.newest + 2 ≤ s.tailSeen + n)
    (hj : s.tailSeen ≤ j) (hl : s.tail.stores[j]? = some tail) (hhead : head.toNat = s.head.newest % n) :
    SpScRingBuffer.next s.mask head ≠ tail := by
  have hle : j ≤ s.tail.newest := Atomic.Loads.le_newest (show s.tail.Loads s.tailSeen j tail from ⟨hj, hl⟩)
  have hbehind := h.behind
  intro he
  have hnext := h.toNat_next hhead
  rw [he, h.tail j tail hl] at hnext
  exact SpScRingBuffer.mod_ne_mod (show j < s.head.newest + 1 by omega) (by omega) hnext

/-- **A step of the consumer keeps it sure**, until its pop returns. -/
theorem PopSure.step {a : SpscAct T} (h : PopSure s) (hinv : Inv n s) (hst : s.step a = some t)
    (hret : a = .consumer → ∀ out, s.consumer ≠ .popReturn out) : PopSure t := by
  cases a with
  | callPush value => exact h.producer rfl hst
  | callFull => exact h.producer rfl hst
  | producer => exact h.producer rfl hst
  | producerLoads j => exact h.producer rfl hst
  | callPop =>
    simp only [Spsc.step] at hst
    split at hst
    · rename_i hc
      cases hst
      unfold PopSure at h
      rw [hc] at h
      rw [hinv.ready]
      exact h
    · cases hst
  | callEmpty =>
    simp only [Spsc.step] at hst
    split at hst
    · rename_i hc
      cases hst
      unfold PopSure at h
      rw [hc] at h
      rw [hinv.ready]
      exact h
    · cases hst
  | consumer =>
    simp only [Spsc.step, consumerStep] at hst
    unfold PopSure at h
    split at hst
    · rename_i hc; rw [hc] at h; cases hst; exact h
    · rename_i tail out hc
      cases hst
      exact ⟨out, rfl, List.getLast?_concat⟩
    · rename_i hc; rw [hc] at h; cases hst; exact h
    · rename_i out hc; exact absurd hc (hret rfl out)
    · rename_i e hc; rw [hc] at h; cases hst; exact h.2
    · cases hst
  | consumerLoads j =>
    simp only [Spsc.step] at hst
    split at hst
    · rename_i head hl
      split at hst
      · rename_i hj
        have hpc := hinv.consumer
        unfold PopSure at h
        unfold consumerLoad at hst
        split at hst
        · rename_i tail hc
          rw [hc] at h hpc
          rw [if_neg (hinv.tail_ne_head h hj hl hpc)] at hst
          cases hst
          exact Nat.lt_of_lt_of_le h hj
        · rename_i tail hc
          rw [hc] at h hpc
          cases hst
          exact ⟨decide_eq_false (hinv.tail_ne_head h hj hl hpc), Nat.lt_of_lt_of_le h hj⟩
        · cases hst
      · cases hst
    · cases hst
  | consumerReads k =>
    simp only [Spsc.step] at hst
    split at hst
    · rename_i tail hc
      split at hst
      · split at hst
        · unfold PopSure at h
          rw [hc] at h
          cases hst
          exact h
        · cases hst
      · cases hst
    · cases hst

/-- **A step of the producer keeps it sure**, until its push returns. -/
theorem PushSure.step {a : SpscAct T} (h : PushSure n s) (hinv : Inv n s) (hst : s.step a = some t)
    (hret : a = .producer → ∀ ok, s.producer ≠ .pushReturn ok) : PushSure n t := by
  cases a with
  | callPop => exact h.consumer rfl hst
  | callEmpty => exact h.consumer rfl hst
  | consumer => exact h.consumer rfl hst
  | consumerLoads j => exact h.consumer rfl hst
  | consumerReads k => exact h.consumer rfl hst
  | callPush value =>
    simp only [Spsc.step] at hst
    split at hst
    · rename_i hp
      cases hst
      unfold PushSure at h
      rw [hp] at h
      rw [hinv.ready]
      exact h
    · cases hst
  | callFull =>
    simp only [Spsc.step] at hst
    split at hst
    · rename_i hp
      cases hst
      unfold PushSure at h
      rw [hp] at h
      rw [hinv.ready]
      exact h
    · cases hst
  | producer =>
    simp only [Spsc.step, producerStep] at hst
    unfold PushSure at h
    split at hst
    · rename_i hp; rw [hp] at h; cases hst; exact h
    · rename_i hp; rw [hp] at h; cases hst; exact h
    · cases hst; exact rfl
    · rename_i hp; rw [hp] at h; cases hst; exact h
    · rename_i ok hp; exact absurd hp (hret rfl ok)
    · rename_i f hp; rw [hp] at h; cases hst; exact h.2
    · cases hst
  | producerLoads j =>
    simp only [Spsc.step] at hst
    split at hst
    · rename_i tail hl
      split at hst
      · rename_i hj
        have hpc := hinv.producer
        unfold PushSure at h
        unfold producerLoad at hst
        split at hst
        · rename_i value head hp
          rw [hp] at h hpc
          dsimp only at hst
          rw [if_neg (hinv.next_ne_tail h hj hl hpc)] at hst
          cases hst
          exact Nat.le_trans h (Nat.add_le_add_right hj n)
        · rename_i head hp
          rw [hp] at h hpc
          cases hst
          exact ⟨decide_eq_false (hinv.next_ne_tail h hj hl hpc), Nat.le_trans h (Nat.add_le_add_right hj n)⟩
        · cases hst
      · cases hst
    · cases hst

end Sure

/-! ## What the checks have returned -/

/-- What each side knows: `empty()` has returned false since the consumer's last pop returned, `full()` since the
producer's last push. -/
structure Checks where
  nonEmpty : Bool := false
  room     : Bool := false
  deriving DecidableEq, Repr

def noteChecks (c : Checks) (s : Spsc T) : SpscAct T → Spsc T → Checks
  | .consumer, _ =>
    match s.consumer with
    | .emptyReturn false => { c with nonEmpty := true }
    | .popReturn _       => { c with nonEmpty := false }
    | _                  => c
  | .producer, _ =>
    match s.producer with
    | .fullReturn false => { c with room := true }
    | .pushReturn _     => { c with room := false }
    | _                 => c
  | _, _ => c

/-- **A check that has come out false makes its side sure.** -/
def Noted (n : Nat) (s : Spsc T) (c : Checks) : Prop :=
  (c.nonEmpty = true → PopSure s) ∧ (c.room = true → PushSure n s)

/-- The return of `empty` that makes the consumer sure, and the return of its pop. -/
theorem noted_consumer {n : Nat} {s t : Spsc T} {c : Checks} (hinv : Inv n s) (h : c.nonEmpty = true → PopSure s)
    (hst : s.step .consumer = some t) : (noteChecks c s .consumer t).nonEmpty = true → PopSure t := by
  intro hc
  simp only [noteChecks] at hc
  split at hc
  · rename_i he
    have hcons := hinv.consumer
    rw [he] at hcons
    have hsure : PopSure s := by
      unfold PopSure
      rw [he]; exact ⟨rfl, hcons rfl⟩
    exact hsure.step hinv hst (fun _ out hout => by rw [he] at hout; cases hout)
  · cases hc
  · rename_i hnp
    exact (h hc).step hinv hst (fun _ out hout => hnp out hout)

theorem noted_producer {n : Nat} {s t : Spsc T} {c : Checks} (hinv : Inv n s) (h : c.room = true → PushSure n s)
    (hst : s.step .producer = some t) : (noteChecks c s .producer t).room = true → PushSure n t := by
  intro hc
  simp only [noteChecks] at hc
  split at hc
  · rename_i hf
    have hprod := hinv.producer
    rw [hf] at hprod
    have hsure : PushSure n s := by
      unfold PushSure
      rw [hf]; exact ⟨rfl, hprod rfl⟩
    exact hsure.step hinv hst (fun _ ok hok => by rw [hf] at hok; cases hok)
  · cases hc
  · rename_i hnp
    exact (h hc).step hinv hst (fun _ ok hok => hnp ok hok)

theorem nonEmpty_noteChecks {c : Checks} {s t : Spsc T} {a : SpscAct T} (ha : a ≠ .consumer) :
    (noteChecks c s a t).nonEmpty = c.nonEmpty := by
  unfold noteChecks
  split
  · exact absurd rfl ha
  · split <;> rfl
  · rfl

theorem room_noteChecks {c : Checks} {s t : Spsc T} {a : SpscAct T} (ha : a ≠ .producer) :
    (noteChecks c s a t).room = c.room := by
  unfold noteChecks
  split
  · split <;> rfl
  · exact absurd rfl ha
  · rfl

theorem noted_step {n : Nat} {s t : Spsc T} {c : Checks} {a : SpscAct T} (hinv : Inv n s) (h : Noted n s c)
    (hst : s.step a = some t) : Noted n t (noteChecks c s a t) := by
  constructor
  · by_cases ha : a = .consumer
    · subst ha
      exact noted_consumer hinv h.1 hst
    · intro hc
      rw [nonEmpty_noteChecks ha] at hc
      exact (h.1 hc).step hinv hst (fun he => absurd he ha)
  · by_cases ha : a = .producer
    · subst ha
      exact noted_producer hinv h.2 hst
    · intro hc
      rw [room_noteChecks ha] at hc
      exact (h.2 hc).step hinv hst (fun he => absurd he ha)

theorem reachable_noted [Inhabited T] {rb rb' : SpScRingBuffer T} {n : SizeT} (hinit : rb.init n = (rb', true))
    {s : Spsc T} {c : Checks} (hs : ((machine rb').withHistory {} noteChecks).Reachable (s, c)) :
    Noted n.toNat s c :=
  hs.history_invariant (I := Noted n.toNat) (fun _ => reachable_inv hinit)
    ⟨fun hc => (by cases hc), fun hc => (by cases hc)⟩
    (fun s _ _ _ hJ hI hst => noted_step (s := s) hJ hI hst)

end Spsc

/-! ## `wait_pop_for` after its predicate -/

namespace CommandPath

variable {T : Type}

/-- Past a predicate that came out true: at the check after it, or at the pop. -/
def pastPredicate : WaiterPc T → Bool
  | .check .recheck => true
  | .pop            => true
  | _               => false

/-- Past a predicate that came out true, the consumer is sure of its pop. -/
def WaiterSure (s : CommandPath T) : Prop := pastPredicate s.waiter = true → s.ring.PopSure

theorem WaiterSure.of_ring {s t : CommandPath T} {n : Nat} {a : SpscAct T} (h : s.WaiterSure)
    (hinv : Spsc.Inv n s.ring) (hst : s.ring.step a = some t.ring) (hw : t.waiter = s.waiter)
    (hret : a = .consumer → ∀ out, s.ring.consumer ≠ .popReturn out) : t.WaiterSure := by
  intro ht
  rw [hw] at ht
  exact (h ht).step hinv hst hret

theorem waiterSure_of_not_past {t : CommandPath T} (h : pastPredicate t.waiter = false) : t.WaiterSure := by
  intro ht
  rw [h] at ht
  cases ht

/-- **An `empty()` that came out false makes the consumer sure**, through its return and the next call. -/
theorem popSure_of_emptyReturn {n : Nat} {r r' r'' : Spsc T} {a : SpscAct T} (hinv : Spsc.Inv n r)
    (hc : r.consumer = .emptyReturn false) (hr : r.step .consumer = some r') (hr' : r'.step a = some r'')
    (ha : a ≠ .consumer) : r''.PopSure := by
  have hcons := hinv.consumer
  rw [hc] at hcons
  have hsure : r.PopSure := by
    unfold Spsc.PopSure
    rw [hc]; exact ⟨rfl, hcons rfl⟩
  have hsure' := hsure.step hinv hr (fun _ out hout => by rw [hc] at hout; cases hout)
  exact hsure'.step (Spsc.inv_step hinv hr) hr' (fun he => absurd he ha)

theorem WaiterSure.checked {s t : CommandPath T} {n : Nat} {c : WaitCheck} {e : Bool}
    (hinv : Spsc.Inv n s.ring) (hc : s.ring.consumer = .emptyReturn e) (hst : s.checked c e = some t) :
    t.WaiterSure := by
  obtain ⟨r, hr, hst⟩ := Option.bind_eq_some_iff.1 hst
  have hagain : e = false → callEmpty { s with ring := r } .recheck = some t → t.WaiterSure := by
    rintro rfl hcall _
    obtain ⟨r', hr', rfl⟩ := callEmpty_eq hcall
    exact popSure_of_emptyReturn hinv hc hr hr' nofun
  cases c with
  | loop =>
    cases e with
    | true => cases hst; exact waiterSure_of_not_past rfl
    | false => exact hagain rfl hst
  | deadline =>
    cases e with
    | true => cases hst; exact waiterSure_of_not_past rfl
    | false => exact hagain rfl hst
  | recheck =>
    cases e with
    | true => cases hst; exact waiterSure_of_not_past rfl
    | false =>
      obtain ⟨r', hr', rfl⟩ := Option.map_eq_some_iff.1 hst
      exact fun _ => popSure_of_emptyReturn hinv hc hr hr' nofun

theorem waiterSure_step {s t : CommandPath T} {n : Nat} {a : CommandAct T} (hinv : Spsc.Inv n s.ring)
    (h : s.WaiterSure) (hst : s.step a = some t) : t.WaiterSure := by
  cases moves_of_step hst with
  | ring b hw hr hret => exact h.of_ring hinv hr hw hret
  | stays hw hr =>
    intro ht
    rw [hw] at ht
    rw [hr]
    exact h ht
  | goes hw hr =>
    refine waiterSure_of_not_past ?_
    rcases hw with hw | hw | hw <;> rw [hw] <;> rfl
  | blocks ha hw hr => exact waiterSure_of_not_past (by rw [hw]; rfl)
  | uninitialized hi hw hr => exact waiterSure_of_not_past (by rw [hw]; rfl)
  | calls c hc hw hr =>
    refine waiterSure_of_not_past ?_
    rw [hw]
    cases c with
    | loop => rfl
    | deadline => rfl
    | recheck => exact absurd rfl hc
  | checked c e hw hc hst => exact WaiterSure.checked hinv hc hst
  | popped out hw hc ht hr => exact waiterSure_of_not_past (by rw [ht]; rfl)

/-- **`wait_pop_for` gives up only at its deadline**: a step that makes it return nothing is its check there. -/
theorem ret_none_step {s t : CommandPath T} {n : Nat} {a : CommandAct T} (hinv : Spsc.Inv n s.ring) (h : s.WaiterSure)
    (hst : s.step a = some t) (ht : t.waiter = .ret none) (hs : s.waiter ≠ .ret none) :
    s.waiter = .check .deadline ∧ s.ring.consumer = .emptyReturn true := by
  have hother : ∀ {p : WaiterPc T}, t.waiter = p → p ≠ .ret none → False := fun hp hne => hne (hp.symm.trans ht)
  cases moves_of_step hst with
  | ring b hw hr hret => exact (hother hw hs).elim
  | stays hw hr => exact (hother hw hs).elim
  | goes hw hr => rcases hw with hw | hw | hw <;> exact (hother hw nofun).elim
  | blocks ha hw hr => exact (hother hw nofun).elim
  | uninitialized hi hw hr => rw [hinv.ready] at hi; cases hi
  | calls c hc hw hr => exact (hother hw nofun).elim
  | checked c e hw hc hst =>
    rcases checked_waiter hst with ht' | ht' | ht' | ⟨-, hloop, rfl⟩
    · exact (hother ht' nofun).elim
    · exact (hother ht' nofun).elim
    · exact (hother ht' nofun).elim
    · cases c with
      | loop => exact absurd rfl hloop
      | deadline => exact ⟨hw, hc⟩
      | recheck =>
        -- the predicate has shown a value that is still there
        have hsure := h (by rw [hw]; rfl)
        unfold Spsc.PopSure at hsure
        rw [hc] at hsure
        cases hsure.1
  | popped out hw hc ht' hr =>
    have hsure := h (by rw [hw]; rfl)
    unfold Spsc.PopSure at hsure
    rw [hc] at hsure
    obtain ⟨v, rfl, -⟩ := hsure
    exact (hother ht' nofun).elim

/-- The ring's invariant and the consumer's, in every state of the command path. -/
theorem reachable_waiterSure [Inhabited T] {rb rb' : SpScRingBuffer T} {n : SizeT} (hinit : rb.init n = (rb', true))
    {s : CommandPath T} (hs : (machine rb').Reachable s) : Spsc.Inv n.toNat s.ring ∧ s.WaiterSure := by
  have hring : ∀ s, (machine rb').Reachable s → Spsc.Inv n.toNat s.ring :=
    fun s hs => Spsc.reachable_inv hinit (reachable_ring hs)
  exact ⟨hring s hs, hs.invariant_of hring (waiterSure_of_not_past rfl)
    (fun _ _ _ hJ hI hst => waiterSure_step hJ hI hst)⟩

/-- **A side's check holds until its next call.**  On a buffer set up by any accepted `init`, in every interleaving: a
pop after an `empty()` that returned false succeeds, and a push after a `full()` that did.  So in `wait_pop_for` the
branch after a predicate that came out true is not taken, the pop takes the oldest undelivered value, and nothing is
returned only after the consumer found the buffer empty at its deadline. -/
theorem checks_stable [Inhabited T] {rb rb' : SpScRingBuffer T} {n : SizeT} (hinit : rb.init n = (rb', true)) :
    (∀ s c, ((Spsc.machine rb').withHistory {} Spsc.noteChecks).Reachable (s, c) →
      (c.nonEmpty = true → ∀ out, s.consumer = .popReturn out →
        ∃ v, out = some v ∧ s.delivered.getLast? = some v ∧ s.delivered <+: s.published) ∧
      (c.room = true → ∀ ok, s.producer = .pushReturn ok → ok = true)) ∧
    (∀ s, (machine rb').Reachable s →
      ¬ (s.waiter = .check .recheck ∧ s.ring.consumer = .emptyReturn true) ∧
      (s.waiter = .pop → ∀ out, s.ring.consumer = .popReturn out →
        ∃ v, out = some v ∧ s.ring.delivered.getLast? = some v ∧ s.ring.delivered <+: s.ring.published) ∧
      ∀ a t, s.step a = some t → t.waiter = .ret none → s.waiter ≠ .ret none →
        s.waiter = .check .deadline ∧ s.ring.consumer = .emptyReturn true) := by
  have hpop : ∀ {r : Spsc T} {out : Option T}, Spsc.Inv n.toNat r → r.PopSure → r.consumer = .popReturn out →
      ∃ v, out = some v ∧ r.delivered.getLast? = some v ∧ r.delivered <+: r.published := by
    intro r out hinv hsure hc
    unfold Spsc.PopSure at hsure
    rw [hc] at hsure
    obtain ⟨v, hout, hlast⟩ := hsure
    exact ⟨v, hout, hlast, by rw [hinv.fifo]; exact List.take_prefix _ _⟩
  refine ⟨fun s c hs => ?_, fun s hs => ?_⟩
  · obtain ⟨hnon, hroom⟩ := Spsc.reachable_noted hinit hs
    have hinv := Spsc.reachable_inv hinit hs.fst
    refine ⟨fun hc out hout => hpop hinv (hnon hc) hout, fun hc ok hok => ?_⟩
    have hsure := hroom hc
    unfold Spsc.PushSure at hsure
    rw [hok] at hsure
    exact hsure
  · obtain ⟨hinv, hsure⟩ := reachable_waiterSure hinit hs
    refine ⟨fun ⟨hw, hc⟩ => ?_, fun hw out hout => hpop hinv (hsure (by rw [hw]; rfl)) hout,
      fun a t hst ht hne => ret_none_step hinv hsure hst ht hne⟩
    have := hsure (by rw [hw]; rfl)
    unfold Spsc.PopSure at this
    rw [hc] at this
    cases this.1

/-- Both sides check, both move, and both of the calls they checked for succeed; a `wait_pop_for` that finds a command
pops it, and one that is timed out has found the buffer empty. -/
theorem checks_stable_eight :
    (∃ s : Spsc Nat, s.consumer = .popReturn (some 7) ∧ s.delivered.getLast? = some 7 ∧
      ∃ ok, s.producer = .pushReturn ok ∧ ok = true) ∧
    (∃ s : CommandPath Nat, s.waiter = .pop ∧ s.ring.consumer = .popReturn (some 7) ∧
      s.ring.delivered.getLast? = some 7) ∧
    ∃ s t : CommandPath Nat, s.step .checked = some t ∧ t.waiter = .ret none ∧ s.waiter = .check .deadline ∧
      s.ring.consumer = .emptyReturn true := by
  obtain ⟨p, hrun⟩ : ∃ p, ((Spsc.machine Spsc.eight).withHistory {} Spsc.noteChecks).runFrom
      ((Spsc.machine Spsc.eight).withHistory {} Spsc.noteChecks).init
      [.callPush 7, .producer, .producerLoads 0, .producer, .producer, .producer,
       .callFull, .producer, .producerLoads 0, .producer,
       .callEmpty, .consumer, .consumerLoads 1, .consumer,
       .callPop, .consumer, .callPush 9, .producer, .consumerLoads 1, .consumerReads 1, .consumer,
       .producerLoads 0, .producer, .producer] = some p := ⟨_, rfl⟩
  obtain ⟨s, hpops⟩ : ∃ s, (machine Spsc.eight).runFrom (machine Spsc.eight).init
      [.sendCommand 7, .sender .producer, .sender (.producerLoads 0), .sender .producer, .sender .producer,
       .waitPopFor, .lock, .waiter .consumer, .waiter (.consumerLoads 1), .checked, .waiter .consumer,
       .waiter (.consumerLoads 1), .checked, .waiter .consumer, .waiter (.consumerLoads 1), .waiter (.consumerReads 1),
       .waiter .consumer] = some s := ⟨_, rfl⟩
  obtain ⟨u, htimes⟩ : ∃ u, (machine Spsc.eight).runFrom (machine Spsc.eight).init
      [.waitPopFor, .lock, .waiter .consumer, .waiter (.consumerLoads 0), .checked, .block, .wake, .relock true,
       .waiter .consumer, .waiter (.consumerLoads 0)] = some u := ⟨_, rfl⟩
  obtain ⟨hchecks, hwaits⟩ := checks_stable (show ({} : SpScRingBuffer Nat).init 8 = (Spsc.eight, true) from rfl)
  refine ⟨?_, ?_, ?_⟩
  · have hnote : p.2 = { nonEmpty := true, room := true } := by cases hrun; rfl
    have hcons : p.1.consumer = .popReturn (some 7) := by cases hrun; rfl
    have hprod : ∃ ok, p.1.producer = .pushReturn ok := by cases hrun; exact ⟨_, rfl⟩
    obtain ⟨hpop, hpush⟩ := hchecks p.1 p.2 (Machine.reachable_of_run _ hrun)
    obtain ⟨v, hv, hlast, -⟩ := hpop (by rw [hnote]) _ hcons
    obtain rfl := Option.some.inj hv
    obtain ⟨ok, hok⟩ := hprod
    exact ⟨p.1, hcons, hlast, ok, hok, hpush (by rw [hnote]) ok hok⟩
  · have hw : s.waiter = .pop := by cases hpops; rfl
    have hc : s.ring.consumer = .popReturn (some 7) := by cases hpops; rfl
    obtain ⟨-, hpop, -⟩ := hwaits s (Machine.reachable_of_run _ hpops)
    obtain ⟨v, hv, hlast, -⟩ := hpop hw _ hc
    obtain rfl := Option.some.inj hv
    exact ⟨s, hw, hc, hlast⟩
  · obtain ⟨t, hst, ht⟩ : ∃ t, u.step .checked = some t ∧ t.waiter = .ret none := by
      cases htimes; exact ⟨_, rfl, rfl⟩
    have hne : u.waiter ≠ .ret none := by cases htimes; exact nofun
    obtain ⟨-, -, htimeout⟩ := hwaits u (Machine.reachable_of_run _ htimes)
    obtain ⟨hw, hc⟩ := htimeout _ t hst ht hne
    exact ⟨u, t, hst, ht, hw, hc⟩

end CommandPath
end ThreadMessaging

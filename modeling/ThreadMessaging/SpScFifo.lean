import ThreadMessaging.SpScSteps
/-!
# `SpScRingBuffer` between two threads: first in, first out

The wrapped indices stand for two unbounded counters, the number of `m_head` stores and the number of `m_tail` stores:
store number `i` holds `i` modulo the capacity (`Inv.head`, `Inv.tail`).  What each side has seen of the other bounds
the counters (`Inv.room`, `Inv.behind`), so that full and empty are never confused and no slot is written before the
consumer is done with it.  `Inv` is kept by every step (`inv_step`); the FIFO law, the bound on what is undelivered
and the disjointness of the two sides' slots are read off it.
-/
namespace ThreadMessaging
namespace Spsc

variable {T : Type}

def ProducerOk (n : Nat) (s : Spsc T) : ProducerPc T → Prop
  | .pushLoadTail _ head   => head.toNat = s.head.newest % n
  | .pushWrite _ head next =>
    head.toNat = s.head.newest % n ∧ next.toNat = (s.head.newest + 1) % n ∧ s.head.newest + 2 ≤ s.tailSeen + n
  | .pushStore value head next =>
    head.toNat = s.head.newest % n ∧ next.toNat = (s.head.newest + 1) % n ∧ s.head.newest + 2 ≤ s.tailSeen + n ∧
      (s.slots (s.head.newest % n)).getLast? = some ⟨value, s.head.newest + 1⟩
  | .fullLoadTail head     => head.toNat = s.head.newest % n
  | .fullReturn full       => full = false → s.head.newest + 2 ≤ s.tailSeen + n
  | _                      => True

def ConsumerOk (n : Nat) (s : Spsc T) : ConsumerPc T → Prop
  | .popLoadHead tail   => tail.toNat = s.tail.newest % n
  | .popCopy tail       => tail.toNat = s.tail.newest % n ∧ s.tail.newest < s.headSeen
  | .popStore tail out  =>
    tail.toNat = s.tail.newest % n ∧ s.tail.newest < s.headSeen ∧ s.published[s.tail.newest]? = some out
  | .emptyLoadHead tail => tail.toNat = s.tail.newest % n
  | .emptyReturn empty  => empty = false → s.tail.newest < s.headSeen
  | _                   => True

/-- **The invariant of the two threads**, on a buffer of capacity `n`. -/
structure Inv (n : Nat) (s : Spsc T) : Prop where
  pos       : 0 < n
  ready     : s.initialized = true
  next      : ∀ i : SizeT, i.toNat < n → (SpScRingBuffer.next s.mask i).toNat = (i.toNat + 1) % n
  head      : ∀ i x, s.head.stores[i]? = some x → x.toNat = i % n
  tail      : ∀ i x, s.tail.stores[i]? = some x → x.toNat = i % n
  published : s.published.length = s.head.newest
  delivered : s.delivered.length = s.tail.newest
  fifo      : s.delivered = s.published.take s.tail.newest
  room      : s.tailSeen ≤ s.tail.newest ∧ s.head.newest + 1 ≤ s.tailSeen + n
  behind    : s.tail.newest ≤ s.headSeen ∧ s.headSeen ≤ s.head.newest
  slots     : ∀ k v, s.tail.newest ≤ k → s.published[k]? = some v → (s.slots (k % n)).getLast? = some ⟨v, k + 1⟩
  stamps    : ∀ i, ∀ w ∈ s.slots i, 0 < w.stamp → (w.stamp - 1) % n = i
  producer  : ProducerOk n s s.producer
  consumer  : ConsumerOk n s s.consumer

namespace Inv

variable {n : Nat} {s t : Spsc T}

theorem head_latest (h : Inv n s) : s.head.latest.toNat = s.head.newest % n :=
  h.head _ _ s.head.getElem?_newest

theorem tail_latest (h : Inv n s) : s.tail.latest.toNat = s.tail.newest % n :=
  h.tail _ _ s.tail.getElem?_newest

theorem toNat_next (h : Inv n s) {i : SizeT} {k : Nat} (hi : i.toNat = k % n) :
    (SpScRingBuffer.next s.mask i).toNat = (k + 1) % n := by
  rw [h.next i (by rw [hi]; exact Nat.mod_lt _ h.pos), hi, Nat.mod_add_mod]

/-- A value is published exactly below the producer's counter. -/
theorem published_lt (h : Inv n s) {k : Nat} {v : T} (hk : s.published[k]? = some v) : k < s.head.newest := by
  obtain ⟨hlt, -⟩ := List.getElem?_eq_some_iff.1 hk
  rwa [h.published] at hlt

/-! ## The producer's steps -/

/-- **The slot the producer may write holds no undelivered value.** -/
theorem writeSlot_slots (h : Inv n s) {value : T} {k : Nat} {v : T} (hroom : s.head.newest + 2 ≤ s.tailSeen + n)
    (hk : s.tail.newest ≤ k) (hv : s.published[k]? = some v) :
    (s.writeSlot (s.head.newest % n) value (k % n)).getLast? = some ⟨v, k + 1⟩ := by
  have hlt := h.published_lt hv
  have hseen := h.room.1
  rw [writeSlot, Function.update_of_ne (SpScRingBuffer.mod_ne_mod hlt (by omega))]
  exact h.slots k v hk hv

theorem pushWrite (h : Inv n s) {value : T} {head next : SizeT} (hp : s.producer = .pushWrite value head next) :
    Inv n { s with slots := s.writeSlot head.toNat value, producer := .pushStore value head next } := by
  have hpc := h.producer
  rw [hp] at hpc
  obtain ⟨hhead, hnext, hroom⟩ := hpc
  rw [hhead]
  refine { h with slots := fun k v hk hv => h.writeSlot_slots hroom hk hv, stamps := ?_,
                  producer := ⟨hhead, hnext, hroom, ?_⟩ }
  · intro i w hw hpos
    simp only [writeSlot, Function.update_apply] at hw
    split at hw
    · rename_i hi
      rcases List.mem_append.1 hw with hw | hw
      · rw [hi]; exact h.stamps _ w hw hpos
      · obtain rfl := List.mem_singleton.1 hw
        exact hi.symm
    · exact h.stamps i w hw hpos
  · simp [writeSlot]

theorem pushStore (h : Inv n s) {value : T} {head next : SizeT} (hp : s.producer = .pushStore value head next) :
    Inv n { s with head := s.head.store next, published := s.published ++ [value], producer := .pushReturn true } := by
  have hpc := h.producer
  rw [hp] at hpc
  obtain ⟨-, hnext, hroom, hlast⟩ := hpc
  have hle : s.tail.newest ≤ s.published.length := by rw [h.published]; exact Nat.le_trans h.behind.1 h.behind.2
  refine { h with head := ?_, published := ?_, fifo := ?_, room := ?_, behind := ?_, slots := ?_, producer := trivial,
                  consumer := ?_ }
  · intro i x hx
    rw [Atomic.getElem?_store] at hx
    split at hx
    · rename_i hi
      obtain rfl : next = x := by simpa using hx
      rw [hnext, hi]
    · exact h.head i x hx
  · simp [h.published]
  · rw [List.take_append_of_le_length hle]
    exact h.fifo
  · simp only [Atomic.newest_store]
    exact ⟨h.room.1, by omega⟩
  · simp only [Atomic.newest_store]
    exact ⟨h.behind.1, Nat.le_succ_of_le h.behind.2⟩
  · intro k v hk hv
    rw [List.getElem?_append] at hv
    split at hv
    · exact h.slots k v hk hv
    · rename_i hge
      rw [h.published] at hge hv
      obtain ⟨hk0, rfl⟩ : k = s.head.newest ∧ value = v := by
        rw [List.getElem?_singleton] at hv
        split at hv
        · exact ⟨by omega, by simpa using hv⟩
        · cases hv
      rw [hk0]
      exact hlast
  · have hc := h.consumer
    revert hc
    cases s.consumer with
    | popStore tail out =>
      rintro ⟨ht, hlt, hout⟩
      exact ⟨ht, hlt, List.getElem?_append_left (List.getElem?_eq_some_iff.1 hout).1 ▸ hout⟩
    | _ => exact id

/-- **A load of `m_tail` by the producer**: what it has seen only grows, and not finding the buffer full leaves room. -/
theorem producerLoad (h : Inv n s) {j : Nat} {tail : SizeT} (hj : s.tailSeen ≤ j) (hl : s.tail.stores[j]? = some tail)
    (hst : s.producerLoad j tail = some t) : Inv n t := by
  have hle : j ≤ s.tail.newest := Atomic.Loads.le_newest (show s.tail.Loads s.tailSeen j tail from ⟨hj, hl⟩)
  have htail := h.tail j tail hl
  obtain ⟨hseen, hroom⟩ := h.room
  have hr : j ≤ s.tail.newest ∧ s.head.newest + 1 ≤ j + n := ⟨hle, by omega⟩
  -- a next index other than the loaded tail is less than a capacity after it
  have hspace : ∀ {head : SizeT}, head.toNat = s.head.newest % n → SpScRingBuffer.next s.mask head ≠ tail →
      s.head.newest + 2 ≤ j + n := by
    intro head hhead hne
    by_contra hfull
    apply hne
    apply BitVec.eq_of_toNat_eq
    rw [h.toNat_next hhead, htail, show s.head.newest + 1 = j + n by omega, Nat.add_mod_right]
  have hpc := h.producer
  revert hpc hst
  unfold Spsc.producerLoad
  cases s.producer with
  | pushLoadTail value head =>
    intro hst hhead
    simp only at hst
    split at hst
    · cases hst
      exact { h with room := hr, producer := trivial }
    · rename_i hne
      cases hst
      exact { h with room := hr, producer := ⟨hhead, h.toNat_next hhead, hspace hhead hne⟩ }
  | fullLoadTail head =>
    intro hst hhead
    cases hst
    exact { h with room := hr, producer := fun hf => hspace hhead (of_decide_eq_false hf) }
  | _ => intro hst; cases hst

theorem producerStep (h : Inv n s) (hst : s.producerStep = some t) : Inv n t := by
  unfold Spsc.producerStep at hst
  split at hst
  · cases hst; exact { h with producer := h.head_latest }
  · rename_i hp; cases hst; exact h.pushWrite hp
  · rename_i hp; cases hst; exact h.pushStore hp
  · cases hst; exact { h with producer := h.head_latest }
  · cases hst; exact { h with producer := trivial }
  · cases hst; exact { h with producer := trivial }
  · cases hst

/-! ## The consumer's steps -/

theorem popStore (h : Inv n s) {tail : SizeT} {out : T} (hc : s.consumer = .popStore tail out) :
    Inv n { s with tail := s.tail.store (SpScRingBuffer.next s.mask tail), delivered := s.delivered ++ [out],
                   consumer := .popReturn (some out) } := by
  have hpc := h.consumer
  rw [hc] at hpc
  obtain ⟨htail, hlt, hout⟩ := hpc
  refine { h with tail := ?_, delivered := ?_, fifo := ?_, room := ?_, behind := ?_, slots := ?_,
                  consumer := trivial }
  · intro i x hx
    rw [Atomic.getElem?_store] at hx
    split at hx
    · rename_i hi
      obtain rfl : SpScRingBuffer.next s.mask tail = x := by simpa using hx
      rw [h.toNat_next htail, hi]
    · exact h.tail i x hx
  · simp [h.delivered]
  · simp only [Atomic.newest_store]
    rw [List.take_add_one, hout, ← h.fifo]
    rfl
  · simp only [Atomic.newest_store]
    exact ⟨Nat.le_succ_of_le h.room.1, h.room.2⟩
  · simp only [Atomic.newest_store]
    exact ⟨hlt, h.behind.2⟩
  · intro k v hk hv
    simp only [Atomic.newest_store] at hk
    exact h.slots k v (by omega) hv

/-- **The copy of a slot reads the oldest undelivered value**: the write it belongs to is the slot's last, and the
consumer has seen the store that published it. -/
theorem consumerRead (h : Inv n s) {tail : SizeT} {k : Nat} {w : Write T} (hc : s.consumer = .popCopy tail)
    (hk : (s.slots tail.toNat)[k]? = some w) (hr : Readable (s.slots tail.toNat) s.headSeen k) :
    Inv n (s.consumerRead tail w.value) := by
  have hpc := h.consumer
  rw [hc] at hpc
  obtain ⟨htail, hlt⟩ := hpc
  have hpub : s.tail.newest < s.published.length := by
    have := h.behind.2
    rw [h.published]
    omega
  have hlast := h.slots s.tail.newest _ (Nat.le_refl _) (List.getElem?_eq_getElem hpub)
  rw [htail] at hk hr
  obtain rfl := readable_last hlast hlt hk hr
  exact { h with consumer := ⟨htail, hlt, List.getElem?_eq_getElem hpub⟩ }

/-- **A load of `m_head` by the consumer**: what it has seen only grows, and not finding the buffer empty shows it a
published value. -/
theorem consumerLoad (h : Inv n s) {j : Nat} {head : SizeT} (hj : s.headSeen ≤ j) (hl : s.head.stores[j]? = some head)
    (hst : s.consumerLoad j head = some t) : Inv n t := by
  have hle : j ≤ s.head.newest := Atomic.Loads.le_newest (show s.head.Loads s.headSeen j head from ⟨hj, hl⟩)
  have hhead := h.head j head hl
  have hbehind := h.behind.1
  have hb : s.tail.newest ≤ j ∧ j ≤ s.head.newest := ⟨Nat.le_trans hbehind hj, hle⟩
  have hmore : ∀ {tail : SizeT}, tail.toNat = s.tail.newest % n → tail ≠ head → s.tail.newest < j := by
    intro tail htail hne
    by_contra hge
    apply hne
    apply BitVec.eq_of_toNat_eq
    rw [htail, hhead, show s.tail.newest = j by omega]
  have hpc := h.consumer
  revert hpc hst
  unfold Spsc.consumerLoad
  cases s.consumer with
  | popLoadHead tail =>
    intro hst htail
    simp only at hst
    split at hst
    · cases hst
      exact { h with behind := hb, consumer := trivial }
    · rename_i hne
      cases hst
      exact { h with behind := hb, consumer := ⟨htail, hmore htail hne⟩ }
  | emptyLoadHead tail =>
    intro hst htail
    cases hst
    exact { h with behind := hb, consumer := fun he => hmore htail (of_decide_eq_false he) }
  | _ => intro hst; cases hst

theorem consumerStep (h : Inv n s) (hst : s.consumerStep = some t) : Inv n t := by
  unfold Spsc.consumerStep at hst
  split at hst
  · cases hst; exact { h with consumer := h.tail_latest }
  · rename_i hc; cases hst; exact h.popStore hc
  · cases hst; exact { h with consumer := h.tail_latest }
  · cases hst; exact { h with consumer := trivial }
  · cases hst; exact { h with consumer := trivial }
  · cases hst

end Inv

theorem inv_step {n : Nat} {s t : Spsc T} {a : SpscAct T} (h : Inv n s) (hst : s.step a = some t) : Inv n t := by
  cases a with
  | callPush value =>
    simp only [step] at hst
    split at hst
    · cases hst
      refine { h with producer := ?_ }
      dsimp only
      split <;> trivial
    · cases hst
  | callFull =>
    simp only [step] at hst
    split at hst
    · cases hst
      refine { h with producer := ?_ }
      rw [h.ready]
      trivial
    · cases hst
  | producer => exact h.producerStep hst
  | producerLoads j =>
    simp only [step] at hst
    split at hst
    · rename_i tail hl
      split at hst
      · rename_i hj; exact h.producerLoad hj hl hst
      · cases hst
    · cases hst
  | callPop =>
    simp only [step] at hst
    split at hst
    · cases hst
      refine { h with consumer := ?_ }
      dsimp only
      split <;> trivial
    · cases hst
  | callEmpty =>
    simp only [step] at hst
    split at hst
    · cases hst
      refine { h with consumer := ?_ }
      dsimp only
      split
      · exact fun he => by cases he
      · trivial
    · cases hst
  | consumer => exact h.consumerStep hst
  | consumerLoads j =>
    simp only [step] at hst
    split at hst
    · rename_i head hl
      split at hst
      · rename_i hj; exact h.consumerLoad hj hl hst
      · cases hst
    · cases hst
  | consumerReads k =>
    simp only [step] at hst
    split at hst
    · rename_i tail hc
      split at hst
      · rename_i w hk
        split at hst
        · rename_i hr; cases hst; exact h.consumerRead hc hk hr
        · cases hst
      · cases hst
    · cases hst

theorem inv_init [Inhabited T] {rb rb' : SpScRingBuffer T} {c : SizeT} (h : rb.init c = (rb', true)) :
    Inv c.toNat (init rb') := by
  obtain ⟨hr, hhead, htail⟩ := SpScRingBuffer.init_ring h
  have hzero : ∀ (x : SizeT), x = 0 → ∀ i y, (Atomic.of x).stores[i]? = some y → y.toNat = i % c.toNat := by
    intro x hx i y hy
    simp only [Atomic.of, List.getElem?_singleton] at hy
    split at hy
    · rename_i hi
      obtain rfl : x = y := by simpa using hy
      rw [hx, hi]
      rfl
    · cases hy
  have hroom : 0 + 1 ≤ 0 + c.toNat := by
    have := hr.pos
    omega
  exact { pos := hr.pos, ready := hr.initialized, next := fun i hi => hr.toNat_next i hi,
          head := hzero _ hhead, tail := hzero _ htail,
          published := rfl, delivered := rfl, fifo := rfl, room := ⟨Nat.zero_le _, hroom⟩,
          behind := ⟨Nat.zero_le _, Nat.zero_le _⟩, slots := fun k v _ hv => by simp [init] at hv,
          stamps := fun i w hw hpos => by simp only [init, List.mem_singleton] at hw; rw [hw] at hpos; cases hpos
          producer := trivial, consumer := trivial }

theorem reachable_inv [Inhabited T] {rb rb' : SpScRingBuffer T} {c : SizeT} (h : rb.init c = (rb', true)) {s : Spsc T}
    (hs : (machine rb').Reachable s) : Inv c.toNat s :=
  hs.invariant (inv_init h) (fun s _ _ hI hst => inv_step (s := s) hI hst)

/-! ## The laws of the two threads -/

/-- Slot `i` holds the value of a push that is published and not yet delivered. -/
def HoldsUndelivered (s : Spsc T) (i : Nat) : Prop :=
  ∃ w ∈ s.slots i, s.delivered.length < w.stamp ∧ w.stamp ≤ s.published.length

theorem Inv.not_holdsUndelivered {n : Nat} {s : Spsc T} (h : Inv n s) {value : T} {head next : SizeT}
    (hp : s.producer = .pushWrite value head next) : ¬ s.HoldsUndelivered head.toNat := by
  rintro ⟨w, hw, hlt, hle⟩
  have hpc := h.producer
  rw [hp] at hpc
  obtain ⟨hhead, -, hroom⟩ := hpc
  have hslot := h.stamps _ w hw (by omega)
  rw [h.delivered] at hlt
  rw [h.published] at hle
  have hseen := h.room.1
  exact SpScRingBuffer.mod_ne_mod (show w.stamp - 1 < s.head.newest by omega) (by omega) (hslot.trans hhead)

theorem Inv.copy_ne_write {n : Nat} {s : Spsc T} (h : Inv n s) {value : T} {head next tail : SizeT}
    (hp : s.producer = .pushWrite value head next) (hc : s.consumer = .popCopy tail) : tail ≠ head := by
  have hpc := h.producer
  have hcc := h.consumer
  rw [hp] at hpc
  rw [hc] at hcc
  obtain ⟨hhead, -, hroom⟩ := hpc
  obtain ⟨htail, hlt⟩ := hcc
  have hseen := h.room.1
  have hbehind := h.behind.2
  intro he
  rw [he, hhead] at htail
  exact SpScRingBuffer.mod_ne_mod (show s.tail.newest < s.head.newest by omega) (by omega) htail.symm

/-- **What the two records are**: a step delivers the value that a pop is then about to return, and publishes that of a
push which is then about to return true; no other step does either. -/
structure Records (s t : Spsc T) : Prop where
  delivers  : (t.delivered = s.delivered ∧ ∀ v, t.consumer = .popReturn (some v) → s.consumer = .popReturn (some v)) ∨
              ∃ v, t.delivered = s.delivered ++ [v] ∧ t.consumer = .popReturn (some v)
  publishes : (t.published = s.published ∧ (t.producer = .pushReturn true → s.producer = .pushReturn true)) ∨
              ∃ value head next, s.producer = .pushStore value head next ∧ t.published = s.published ++ [value] ∧
                t.producer = .pushReturn true

/-- A step of the producer that publishes nothing. -/
theorem records_of_producer {s t : Spsc T} (hd : t.delivered = s.delivered) (hc : t.consumer = s.consumer)
    (hpub : t.published = s.published) (hp : t.producer = .pushReturn true → s.producer = .pushReturn true) :
    Records s t :=
  ⟨.inl ⟨hd, fun v hv => by rwa [hc] at hv⟩, .inl ⟨hpub, hp⟩⟩

/-- A step of the consumer that delivers nothing. -/
theorem records_of_consumer {s t : Spsc T} (hpub : t.published = s.published) (hp : t.producer = s.producer)
    (hd : t.delivered = s.delivered) (hc : ∀ v, t.consumer ≠ .popReturn (some v)) : Records s t :=
  ⟨.inl ⟨hd, fun v hv => absurd hv (hc v)⟩, .inl ⟨hpub, fun ht => by rwa [hp] at ht⟩⟩

theorem records_producerStep {s t : Spsc T} (hst : s.producerStep = some t) : Records s t := by
  unfold producerStep at hst
  split at hst
  · cases hst; exact records_of_producer rfl rfl rfl (fun he => by cases he)
  · cases hst; exact records_of_producer rfl rfl rfl (fun he => by cases he)
  · rename_i value head next hp
    cases hst
    exact ⟨.inl ⟨rfl, fun _ hv => hv⟩, .inr ⟨value, head, next, hp, rfl, rfl⟩⟩
  · cases hst; exact records_of_producer rfl rfl rfl (fun he => by cases he)
  · cases hst; exact records_of_producer rfl rfl rfl (fun he => by cases he)
  · cases hst; exact records_of_producer rfl rfl rfl (fun he => by cases he)
  · cases hst

theorem records_consumerStep {s t : Spsc T} (hst : s.consumerStep = some t) : Records s t := by
  unfold consumerStep at hst
  split at hst
  · cases hst; exact records_of_consumer rfl rfl rfl (fun _ he => by cases he)
  · rename_i tail out hc
    cases hst
    exact ⟨.inr ⟨out, rfl, rfl⟩, .inl ⟨rfl, id⟩⟩
  · cases hst; exact records_of_consumer rfl rfl rfl (fun _ he => by cases he)
  · cases hst; exact records_of_consumer rfl rfl rfl (fun _ he => by cases he)
  · cases hst; exact records_of_consumer rfl rfl rfl (fun _ he => by cases he)
  · cases hst

theorem records_producerLoad {s t : Spsc T} {j : Nat} {tail : SizeT} (hst : s.producerLoad j tail = some t) :
    Records s t := by
  unfold producerLoad at hst
  split at hst
  · dsimp only at hst
    split at hst
    · cases hst; exact records_of_producer rfl rfl rfl (fun he => by cases he)
    · cases hst; exact records_of_producer rfl rfl rfl (fun he => by cases he)
  · cases hst; exact records_of_producer rfl rfl rfl (fun he => by cases he)
  · cases hst

theorem records_consumerLoad {s t : Spsc T} {j : Nat} {head : SizeT} (hst : s.consumerLoad j head = some t) :
    Records s t := by
  unfold consumerLoad at hst
  split at hst
  · split at hst
    · cases hst; exact records_of_consumer rfl rfl rfl (fun _ he => by cases he)
    · cases hst; exact records_of_consumer rfl rfl rfl (fun _ he => by cases he)
  · cases hst; exact records_of_consumer rfl rfl rfl (fun _ he => by cases he)
  · cases hst

theorem records_step {s t : Spsc T} {a : SpscAct T} (hst : s.step a = some t) : Records s t := by
  cases a with
  | callPush value =>
    simp only [step] at hst
    split at hst
    · cases hst
      refine records_of_producer rfl rfl rfl (fun he => ?_)
      dsimp only at he
      split at he <;> cases he
    · cases hst
  | callFull =>
    simp only [step] at hst
    split at hst
    · cases hst
      refine records_of_producer rfl rfl rfl (fun he => ?_)
      dsimp only at he
      split at he <;> cases he
    · cases hst
  | producer => exact records_producerStep hst
  | producerLoads j =>
    simp only [step] at hst
    split at hst
    · split at hst
      · exact records_producerLoad hst
      · cases hst
    · cases hst
  | callPop =>
    simp only [step] at hst
    split at hst
    · cases hst
      refine records_of_consumer rfl rfl rfl (fun v he => ?_)
      dsimp only at he
      split at he <;> cases he
    · cases hst
  | callEmpty =>
    simp only [step] at hst
    split at hst
    · cases hst
      refine records_of_consumer rfl rfl rfl (fun v he => ?_)
      dsimp only at he
      split at he <;> cases he
    · cases hst
  | consumer => exact records_consumerStep hst
  | consumerLoads j =>
    simp only [step] at hst
    split at hst
    · split at hst
      · exact records_consumerLoad hst
      · cases hst
    · cases hst
  | consumerReads k =>
    simp only [step] at hst
    split at hst
    · split at hst
      · split at hst
        · cases hst; exact records_of_consumer rfl rfl rfl (fun _ he => by cases he)
        · cases hst
      · cases hst
    · cases hst

/-- **FIFO between two threads**: on a buffer set up by any accepted `init`, in every state of every interleaving, the
delivered values are the oldest of the published ones, in order; at most `c - 1` are undelivered; and the slot the
producer is about to write holds no undelivered value and is not the one the consumer is copying.  What is delivered is
what the pops return. -/
theorem spsc_fifo [Inhabited T] {rb rb' : SpScRingBuffer T} {c : SizeT} (hinit : rb.init c = (rb', true)) {s : Spsc T}
    (hs : (machine rb').Reachable s) :
    s.delivered <+: s.published ∧
    s.published.length ≤ s.delivered.length + (c.toNat - 1) ∧
    (∀ value head next, s.producer = .pushWrite value head next →
      ¬ s.HoldsUndelivered head.toNat ∧ ∀ tail, s.consumer = .popCopy tail → tail ≠ head) ∧
    ∀ a t, s.step a = some t → Records s t := by
  have h := reachable_inv hinit hs
  refine ⟨?_, ?_, ?_, fun a t hst => records_step hst⟩
  · rw [h.fifo]
    exact List.take_prefix _ _
  · have hroom := h.room
    rw [h.published, h.delivered]
    omega
  · intro value head next hp
    exact ⟨h.not_holdsUndelivered hp, fun tail hc => h.copy_ne_write hp hc⟩

def eight : SpScRingBuffer Nat := (({} : SpScRingBuffer Nat).init 8).1

/-- The second push about to write while the first value, which has been copied, is about to be delivered. -/
theorem spsc_fifo_eight : ∃ s t : Spsc Nat, (machine eight).Reachable s ∧ s.producer = .pushWrite 9 1 2 ∧
    s.step .consumer = some t ∧ t.consumer = .popReturn (some 7) ∧ t.delivered = s.delivered ++ [7] ∧
    s.delivered <+: s.published ∧ s.published.length ≤ s.delivered.length + (8 - 1) ∧ ¬ s.HoldsUndelivered 1 := by
  obtain ⟨s, hrun⟩ : ∃ s, (machine eight).runFrom (machine eight).init
      [.callPush 7, .producer, .producerLoads 0, .producer, .producer, .producer, .callPush 9, .producer,
       .producerLoads 0, .callPop, .consumer, .consumerLoads 1, .consumerReads 1] = some s := ⟨_, rfl⟩
  have hs := Machine.reachable_of_run _ hrun
  have hp : s.producer = .pushWrite 9 1 2 := by cases hrun; rfl
  have hc : s.consumer = .popStore 0 7 := by cases hrun; rfl
  obtain ⟨t, hst, ht⟩ : ∃ t, s.step .consumer = some t ∧ t.consumer = .popReturn (some 7) := by
    cases hrun; exact ⟨_, rfl, rfl⟩
  obtain ⟨h1, h2, h3, h4⟩ := spsc_fifo (show ({} : SpScRingBuffer Nat).init 8 = (eight, true) from rfl) hs
  have hdelivers : t.delivered = s.delivered ++ [7] := by
    rcases (h4 _ t hst).delivers with ⟨-, hno⟩ | ⟨v, hd, hv⟩
    · have := hno 7 ht
      rw [hc] at this
      cases this
    · rw [ht] at hv
      cases hv
      exact hd
  exact ⟨s, t, hs, hp, hst, ht, hdelivers, h1, h2, (h3 _ _ _ hp).1⟩

end Spsc
end ThreadMessaging

import ThreadMessaging.Machine
import ThreadMessaging.SpScRingBuffer
import ThreadMessaging.Transducer
/-!
# `SpScRingBuffer` in one thread: a bounded queue

Called by one thread, the buffer of `threading/spScRingBuffer.hpp` is a queue (`Holds`): its elements stand in the slots
from the tail on, wrapping modulo the capacity, and the head is where they end.  One slot stays free, so that a full
buffer is not taken for an empty one.  `RefBuffer` is the queue it stands for, and says nothing of indices;
`ring_refines` is the refinement, for any sequence of calls, `init` at any time among them.

Because of that free slot, `push` gives up one element short of `capacity()` (`push_refused`).
-/
namespace ThreadMessaging
namespace SpScRingBuffer

variable {T : Type}

/-- **The buffer, of capacity `n`, holds the elements `q`**, the oldest first. -/
structure Holds (rb : SpScRingBuffer T) (n : Nat) (q : List T) : Prop where
  ring  : Ring rb n
  tail  : rb.tail.toNat < n
  head  : rb.head.toNat = (rb.tail.toNat + q.length) % n
  space : q.length < n
  slots : ∀ i v, q[i]? = some v → rb.buffer[(rb.tail.toNat + i) % n]? = some v

namespace Holds

variable {rb rb' : SpScRingBuffer T} {n : Nat} {q : List T}

theorem head_lt (h : Holds rb n q) : rb.head.toNat < n := by
  rw [h.head]
  exact Nat.mod_lt _ h.ring.pos

theorem toNat_next_head (h : Holds rb n q) :
    (next rb.mask rb.head).toNat = (rb.tail.toNat + (q.length + 1)) % n := by
  rw [h.ring.toNat_next _ h.head_lt, h.head, Nat.mod_add_mod, Nat.add_assoc]

/-- **The index after the head is the tail exactly when one slot is free.** -/
theorem next_head_eq_tail (h : Holds rb n q) : next rb.mask rb.head = rb.tail ↔ q.length + 1 = n := by
  rw [← BitVec.toNat_inj, h.toNat_next_head]
  have hspace := h.space
  constructor
  · intro he
    by_contra hne
    have hlt : rb.tail.toNat < rb.tail.toNat + (q.length + 1) := by omega
    refine mod_ne_mod (n := n) hlt (by omega) ?_
    rw [he, Nat.mod_eq_of_lt h.tail]
  · intro hn
    rw [hn, Nat.add_mod_right, Nat.mod_eq_of_lt h.tail]

/-- **The head is the tail exactly when the buffer holds nothing.** -/
theorem tail_eq_head (h : Holds rb n q) : rb.tail = rb.head ↔ q = [] := by
  rw [← BitVec.toNat_inj, h.head]
  have hspace := h.space
  constructor
  · intro he
    by_contra hne
    have hpos : 0 < q.length := List.length_pos_iff.2 hne
    have hlt : rb.tail.toNat < rb.tail.toNat + q.length := by omega
    refine mod_ne_mod (n := n) hlt (by omega) ?_
    rw [← he, Nat.mod_eq_of_lt h.tail]
  · intro hq
    rw [hq, List.length_nil, Nat.add_zero, Nat.mod_eq_of_lt h.tail]

/-! ## What the calls do to the queue -/

theorem push_eq (h : Holds rb n q) (value : T) : rb.push value =
    if q.length + 1 < n then
      ({ rb with buffer := rb.buffer.set rb.head.toNat value, head := next rb.mask rb.head }, true)
    else (rb, false) := by
  have hspace := h.space
  unfold push
  rw [h.ring.initialized]
  by_cases hn : q.length + 1 = n
  · rw [if_neg nofun, if_pos (h.next_head_eq_tail.2 hn), if_neg (by omega)]
  · rw [if_neg nofun, if_neg (fun he => hn (h.next_head_eq_tail.1 he)), if_pos (by omega)]

theorem push_ok (h : Holds rb n q) (value : T) : (rb.push value).2 = decide (q.length + 1 < n) := by
  rw [h.push_eq]
  split
  · rename_i hlt; exact (decide_eq_true hlt).symm
  · rename_i hge; exact (decide_eq_false hge).symm

/-- **A push with two slots free appends.** -/
theorem push (h : Holds rb n q) {value : T} (hlt : q.length + 1 < n) :
    Holds (rb.push value).1 n (q ++ [value]) := by
  rw [h.push_eq, if_pos hlt]
  have hlen : (q ++ [value]).length = q.length + 1 := by simp
  refine { ring := { h.ring with size := ?_ }, tail := h.tail, head := ?_, space := by rw [hlen]; exact hlt,
           slots := fun i v hv => ?_ }
  · show (rb.buffer.set _ _).length = n
    rw [List.length_set]; exact h.ring.size
  · rw [hlen]; exact h.toNat_next_head
  · show (rb.buffer.set rb.head.toNat value)[(rb.tail.toNat + i) % n]? = some v
    rw [List.getElem?_append] at hv
    split at hv
    · rename_i hi
      -- the slot of an element that is there already is not the head
      rw [List.getElem?_set_ne]
      · exact h.slots i v hv
      · rw [h.head]
        exact (mod_ne_mod (by omega) (by omega)).symm
    · rename_i hi
      rw [List.getElem?_singleton] at hv
      split at hv
      · obtain rfl : value = v := by simpa using hv
        have hslot : (rb.tail.toNat + i) % n = rb.head.toNat := by
          rw [h.head]
          congr 2
          omega
        rw [hslot, List.getElem?_set_self (by rw [h.ring.size]; exact h.head_lt)]
      · cases hv

variable [Inhabited T]

theorem pop_nil (h : Holds rb n []) (out : T) : rb.pop out = (rb, out, false) := by
  unfold SpScRingBuffer.pop
  rw [h.ring.initialized, if_neg nofun, if_pos (h.tail_eq_head.2 rfl)]

/-- **A pop takes the oldest element.** -/
theorem pop_cons {v : T} (h : Holds rb n (v :: q)) (out : T) :
    rb.pop out = ({ rb with tail := next rb.mask rb.tail }, v, true) := by
  unfold SpScRingBuffer.pop
  rw [h.ring.initialized, if_neg nofun, if_neg (fun he => by cases h.tail_eq_head.1 he)]
  have hslot := h.slots 0 v rfl
  rw [Nat.add_zero, Nat.mod_eq_of_lt h.tail] at hslot
  rw [List.getD_eq_getElem?_getD, hslot]; rfl

theorem pop_ok (h : Holds rb n q) (out : T) : (rb.pop out).2.2 = !q.isEmpty := by
  cases q with
  | nil => rw [h.pop_nil]; rfl
  | cons v q => rw [h.pop_cons]; rfl

theorem pop {v : T} (h : Holds rb n (v :: q)) (out : T) : Holds (rb.pop out).1 n q := by
  rw [h.pop_cons]
  have hnext := h.ring.toNat_next _ h.tail
  have hlen : (v :: q).length = q.length + 1 := rfl
  have hspace := h.space
  refine { ring := { h.ring with }, tail := ?_, head := ?_, space := by omega, slots := fun i w hw => ?_ }
  · show (next rb.mask rb.tail).toNat < n
    rw [hnext]; exact Nat.mod_lt _ h.ring.pos
  · show rb.head.toNat = ((next rb.mask rb.tail).toNat + q.length) % n
    rw [h.head, hnext, Nat.mod_add_mod, hlen]
    congr 1
    omega
  · show rb.buffer[((next rb.mask rb.tail).toNat + i) % n]? = some w
    have := h.slots (i + 1) w hw
    rw [hnext, Nat.mod_add_mod, Nat.add_assoc, Nat.add_comm 1 i]
    exact this

end Holds

theorem init_holds [Inhabited T] {rb rb' : SpScRingBuffer T} {n : SizeT} (h : rb.init n = (rb', true)) :
    Holds rb' n.toNat [] := by
  obtain ⟨hr, hhead, htail⟩ := init_ring h
  refine ⟨hr, ?_, ?_, hr.pos, fun i v hv => by cases hv⟩
  · rw [htail]; exact hr.pos
  · rw [hhead, htail]; exact (Nat.zero_mod _).symm

theorem init_ok_iff [Inhabited T] (rb : SpScRingBuffer T) (n : SizeT) :
    (rb.init n).2 = true ↔ ∃ k, n.toNat = 2 ^ k := by
  unfold init
  by_cases h0 : n = 0
  · rw [if_pos h0, h0]
    constructor
    · exact nofun
    · rintro ⟨k, hk⟩
      have hpos := Nat.two_pow_pos k
      have hzero : (0 : SizeT).toNat = 0 := rfl
      omega
  · rw [if_neg h0]
    have hpow := and_pred_eq_zero_iff n h0
    by_cases hp : n &&& (n - 1) = 0
    · obtain ⟨k, -, hk⟩ := hpow.1 hp
      rw [if_neg (fun hne => hne hp)]
      exact ⟨fun _ => ⟨k, hk⟩, fun _ => rfl⟩
    · rw [if_pos hp]
      refine ⟨nofun, fun ⟨k, hk⟩ => absurd (hpow.2 ⟨k, ?_, hk⟩) hp⟩
      have hlt : 2 ^ k < 2 ^ 64 := by rw [← hk]; exact n.isLt
      exact (Nat.pow_lt_pow_iff_right (by decide)).1 hlt

theorem init_fails [Inhabited T] {rb : SpScRingBuffer T} {n : SizeT} (h : (rb.init n).2 = false) :
    (rb.init n).1 = rb := by
  unfold init at h ⊢
  split
  · rfl
  · rename_i h0
    rw [if_neg h0] at h
    split
    · rfl
    · rename_i hp; rw [if_neg hp] at h; cases h

/-! ## The queue the buffer stands for -/

inductive RingCall (T : Type)
  | init (capacityPowerOfTwo : SizeT)
  | push (value : T)
  | pop (out : T)
  | empty
  | full
  | capacity
  deriving DecidableEq, Repr

/-- What a call returns; `pop` with its out argument. -/
inductive RingAnswer (T : Type)
  | bool (b : Bool)
  | popped (ok : Bool) (out : T)
  | size (n : SizeT)
  deriving DecidableEq, Repr

def call [Inhabited T] (rb : SpScRingBuffer T) : RingCall T → SpScRingBuffer T × RingAnswer T
  | .init n    => ((rb.init n).1, .bool (rb.init n).2)
  | .push v    => ((rb.push v).1, .bool (rb.push v).2)
  | .pop out   => ((rb.pop out).1, .popped (rb.pop out).2.2 (rb.pop out).2.1)
  | .empty     => (rb, .bool rb.empty)
  | .full      => (rb, .bool rb.full)
  | .capacity  => (rb, .size rb.capacity)

/-- A default-constructed buffer, under any calls. -/
def transducer (T : Type) [Inhabited T] : Transducer (SpScRingBuffer T) (RingCall T) (RingAnswer T) where
  init := {}
  call := call

/-- The reference: not initialised, or a first-in first-out queue bounded by `capacity - 1`. -/
inductive RefBuffer (T : Type)
  | uninitialized
  | queue (capacity : SizeT) (contents : List T)
  deriving DecidableEq, Repr

namespace RefBuffer

def call : RefBuffer T → RingCall T → RefBuffer T × RingAnswer T
  | r,              .init n    => if ∃ k, k < 64 ∧ n.toNat = 2 ^ k then (.queue n [], .bool true) else (r, .bool false)
  | .uninitialized, .push _    => (.uninitialized, .bool false)
  | .uninitialized, .pop out   => (.uninitialized, .popped false out)
  | .uninitialized, .empty     => (.uninitialized, .bool true)
  | .uninitialized, .full      => (.uninitialized, .bool false)
  | .uninitialized, .capacity  => (.uninitialized, .size 0)
  | .queue c q,     .push v    => if q.length < c.toNat - 1 then (.queue c (q ++ [v]), .bool true)
                                  else (.queue c q, .bool false)
  | .queue c [],    .pop out   => (.queue c [], .popped false out)
  | .queue c (v :: q), .pop _  => (.queue c q, .popped true v)
  | .queue c q,     .empty     => (.queue c q, .bool q.isEmpty)
  | .queue c q,     .full      => (.queue c q, .bool (q.length = c.toNat - 1))
  | .queue c q,     .capacity  => (.queue c q, .size c)

def transducer (T : Type) : Transducer (RefBuffer T) (RingCall T) (RingAnswer T) where
  init := .uninitialized
  call := call

end RefBuffer

/-- **A buffer stands for the reference.** -/
def Represents (rb : SpScRingBuffer T) : RefBuffer T → Prop
  | .uninitialized => rb.initialized = false ∧ rb.capacity = 0
  | .queue c q     => rb.capacity = c ∧ Holds rb c.toNat q

section Refinement

variable [Inhabited T]

theorem represents_init {rb : SpScRingBuffer T} {r : RefBuffer T} (h : Represents rb r) (n : SizeT) :
    (rb.call (.init n)).2 = (r.call (.init n)).2 ∧ Represents (rb.call (.init n)).1 (r.call (.init n)).1 := by
  have hr : r.call (.init n) =
      if ∃ k, k < 64 ∧ n.toNat = 2 ^ k then (.queue n [], .bool true) else (r, .bool false) := by
    cases r <;> rfl
  have hok := rb.init_ok_iff n
  rw [hr]
  cases hi : (rb.init n).2 with
  | true =>
    have heq : rb.init n = ((rb.init n).1, true) := Prod.ext rfl hi
    have hholds := init_holds heq
    have hcap : (rb.init n).1.capacity = n := BitVec.eq_of_toNat_eq hholds.ring.capacity
    obtain ⟨k, hlt, hk⟩ := hholds.ring.pow
    rw [if_pos ⟨k, hlt, hk⟩]
    exact ⟨congrArg RingAnswer.bool hi, hcap, hholds⟩
  | false =>
    rw [if_neg (fun ⟨k, _, hk⟩ => by rw [hok.2 ⟨k, hk⟩] at hi; cases hi)]
    refine ⟨congrArg RingAnswer.bool hi, ?_⟩
    show Represents (rb.init n).1 r
    rw [init_fails hi]; exact h

theorem represents_uninitialized {rb : SpScRingBuffer T} (h : Represents rb .uninitialized) (a : RingCall T)
    (ha : ∀ n, a ≠ .init n) : (rb.call a).2 = (RefBuffer.uninitialized.call a).2 ∧
      Represents (rb.call a).1 (RefBuffer.uninitialized.call a).1 := by
  obtain ⟨hini, hcap⟩ := h
  cases a with
  | init n => exact absurd rfl (ha n)
  | push v =>
    have heq : rb.push v = (rb, false) := by unfold SpScRingBuffer.push; rw [hini]; rfl
    simp only [call, heq]
    exact ⟨rfl, hini, hcap⟩
  | pop out =>
    have heq : rb.pop out = (rb, out, false) := by unfold SpScRingBuffer.pop; rw [hini]; rfl
    simp only [call, heq]
    exact ⟨rfl, hini, hcap⟩
  | empty => exact ⟨by simp [call, RefBuffer.call, SpScRingBuffer.empty, hini], hini, hcap⟩
  | full => exact ⟨by simp [call, RefBuffer.call, SpScRingBuffer.full, hini], hini, hcap⟩
  | capacity => exact ⟨congrArg RingAnswer.size hcap, hini, hcap⟩

theorem represents_queue {rb : SpScRingBuffer T} {c : SizeT} {q : List T} (h : Represents rb (.queue c q))
    (a : RingCall T) (ha : ∀ n, a ≠ .init n) : (rb.call a).2 = ((RefBuffer.queue c q).call a).2 ∧
      Represents (rb.call a).1 ((RefBuffer.queue c q).call a).1 := by
  obtain ⟨hcap, hq⟩ := h
  have hspace := hq.space
  cases a with
  | init n => exact absurd rfl (ha n)
  | push v =>
    have hok := hq.push_ok v
    by_cases hlt : q.length + 1 < c.toNat
    · have hr : (RefBuffer.queue c q).call (.push v) = (.queue c (q ++ [v]), .bool true) := if_pos (by omega)
      rw [hr]
      refine ⟨congrArg RingAnswer.bool (hok.trans (decide_eq_true hlt)), ?_, hq.push hlt⟩
      show (rb.push v).1.capacity = c
      rw [hq.push_eq, if_pos hlt]; exact hcap
    · have hr : (RefBuffer.queue c q).call (.push v) = (.queue c q, .bool false) := if_neg (by omega)
      rw [hr]
      refine ⟨congrArg RingAnswer.bool (hok.trans (decide_eq_false hlt)), ?_⟩
      show Represents (rb.push v).1 _
      rw [hq.push_eq, if_neg hlt]; exact ⟨hcap, hq⟩
  | pop out =>
    cases q with
    | nil =>
      have heq := hq.pop_nil out
      simp only [call, heq]
      exact ⟨rfl, hcap, hq⟩
    | cons v q =>
      have hpop := hq.pop out
      rw [hq.pop_cons out] at hpop
      simp only [call, hq.pop_cons out]
      exact ⟨rfl, hcap, hpop⟩
  | empty =>
    refine ⟨congrArg RingAnswer.bool ?_, hcap, hq⟩
    unfold SpScRingBuffer.empty
    rw [hq.ring.initialized, if_neg nofun]
    exact (decide_eq_decide.2 hq.tail_eq_head).trans (by cases q <;> rfl)
  | full =>
    refine ⟨congrArg RingAnswer.bool ?_, hcap, hq⟩
    unfold SpScRingBuffer.full
    rw [hq.ring.initialized, if_neg nofun]
    exact decide_eq_decide.2 (hq.next_head_eq_tail.trans (by omega))
  | capacity => exact ⟨congrArg RingAnswer.size hcap, hcap, hq⟩

theorem represents : (transducer T).Refines (RefBuffer.transducer T) Represents where
  init := ⟨rfl, rfl⟩
  call rb r a h := by
    by_cases ha : ∃ n, a = .init n
    · obtain ⟨n, rfl⟩ := ha
      exact represents_init h n
    · have ha : ∀ n, a ≠ .init n := fun n he => ha ⟨n, he⟩
      cases r with
      | uninitialized => exact represents_uninitialized h a ha
      | queue c q => exact represents_queue h a ha

/-- **What the calls do in one state of the buffer**: when they succeed, that a failed one changes nothing, and that the
slot one touches is there. -/
structure CallLaws (rb : SpScRingBuffer T) : Prop where
  init_ok     : ∀ n, (rb.init n).2 = true ↔ ∃ k, n.toNat = 2 ^ k
  init_starts : ∀ n, (rb.init n).2 = true → (rb.init n).1.capacity = n ∧ Holds (rb.init n).1 n.toNat []
  init_fails  : ∀ n, (rb.init n).2 = false → (rb.init n).1 = rb
  push_fails  : ∀ v, (rb.push v).2 = false → (rb.push v).1 = rb
  pop_fails   : ∀ out, (rb.pop out).2.2 = false → (rb.pop out).1 = rb ∧ (rb.pop out).2.1 = out
  full        : rb.initialized = true → ∀ v, rb.full = !(rb.push v).2
  empty       : rb.initialized = true → ∀ out, rb.empty = !(rb.pop out).2.2
  push_index  : ∀ v, (rb.push v).2 = true → rb.head.toNat < rb.buffer.length
  pop_index   : ∀ out, (rb.pop out).2.2 = true → rb.tail.toNat < rb.buffer.length

theorem init_starts {rb : SpScRingBuffer T} {n : SizeT} (h : (rb.init n).2 = true) :
    (rb.init n).1.capacity = n ∧ Holds (rb.init n).1 n.toNat [] := by
  have hholds := init_holds (show rb.init n = ((rb.init n).1, true) from Prod.ext rfl h)
  exact ⟨BitVec.eq_of_toNat_eq hholds.ring.capacity, hholds⟩

omit [Inhabited T] in
theorem Holds.full_eq {rb : SpScRingBuffer T} {n : Nat} {q : List T} (h : Holds rb n q) (v : T) :
    rb.full = !(rb.push v).2 := by
  have hspace := h.space
  unfold SpScRingBuffer.full
  rw [h.ring.initialized, if_neg nofun, h.push_ok, ← decide_not]
  exact decide_eq_decide.2 (h.next_head_eq_tail.trans (by omega))

theorem Holds.empty_eq {rb : SpScRingBuffer T} {n : Nat} {q : List T} (h : Holds rb n q) (out : T) :
    rb.empty = !(rb.pop out).2.2 := by
  unfold SpScRingBuffer.empty
  rw [h.ring.initialized, if_neg nofun, h.pop_ok, Bool.not_not]
  exact (decide_eq_decide.2 h.tail_eq_head).trans (by cases q <;> rfl)

theorem Represents.callLaws {rb : SpScRingBuffer T} {r : RefBuffer T} (h : Represents rb r) : CallLaws rb := by
  cases r with
  | uninitialized =>
    obtain ⟨hini, -⟩ := h
    have hpush : ∀ v, rb.push v = (rb, false) := by
      intro v; unfold SpScRingBuffer.push; rw [hini]; rfl
    have hpop : ∀ out, rb.pop out = (rb, out, false) := by
      intro out; unfold SpScRingBuffer.pop; rw [hini]; rfl
    refine ⟨rb.init_ok_iff, fun _ => init_starts, fun _ => SpScRingBuffer.init_fails, fun v _ => by rw [hpush],
      fun out _ => by rw [hpop]; exact ⟨rfl, rfl⟩, fun hi => ?_, fun hi => ?_, fun v hv => ?_, fun out hout => ?_⟩
    · rw [hini] at hi; cases hi
    · rw [hini] at hi; cases hi
    · rw [hpush] at hv; cases hv
    · rw [hpop] at hout; cases hout
  | queue c q =>
    obtain ⟨-, hq⟩ := h
    refine ⟨rb.init_ok_iff, fun _ => init_starts, fun _ => SpScRingBuffer.init_fails, fun v hv => ?_,
      fun out hout => ?_, fun _ v => hq.full_eq v, fun _ out => hq.empty_eq out, fun _ _ => ?_, fun _ _ => ?_⟩
    · rw [hq.push_ok] at hv
      rw [hq.push_eq, if_neg (of_decide_eq_false hv)]
    · cases q with
      | nil => rw [hq.pop_nil]; exact ⟨rfl, rfl⟩
      | cons v q => rw [hq.pop_cons] at hout; cases hout
    · rw [hq.ring.size]; exact hq.head_lt
    · rw [hq.ring.size]; exact hq.tail

/-- **In one thread the buffer is the reference queue**: any calls, from a default-constructed buffer on, are answered
as the reference answers them, and the laws of the calls hold in every state on the way. -/
theorem ring_refines (calls : List (RingCall T)) :
    ((transducer T).run calls).2 = ((RefBuffer.transducer T).run calls).2 ∧
      CallLaws ((transducer T).run calls).1 := by
  obtain ⟨hans, hrep⟩ := (represents (T := T)).run calls
  exact ⟨hans, hrep.callLaws⟩

/-- A queue of three, filled, emptied by one and started again with room for none. -/
example : ((transducer Nat).run [.init 4, .push 1, .push 2, .push 3, .push 4, .full, .pop 0, .init 3, .init 1, .push 5,
    .empty, .capacity]).2 = [.bool true, .bool true, .bool true, .bool true, .bool false, .bool true, .popped true 1,
    .bool false, .bool true, .bool false, .bool true, .size 1] := by decide

/-! ## How many elements fit -/

inductive BufferCall (T : Type)
  | push (value : T)
  | pop
  deriving DecidableEq, Repr

/-- The buffer `rb`, under pushes and pops. -/
def pushesAndPops (rb : SpScRingBuffer T) : Machine (SpScRingBuffer T) (BufferCall T) where
  init := rb
  step rb
    | .push v => some (rb.push v).1
    | .pop    => some (rb.pop default).1

/-- The elements a buffer holds by what its calls have returned: pushed with success, and not yet popped. -/
def held (q : List T) (rb : SpScRingBuffer T) : BufferCall T → SpScRingBuffer T → List T
  | .push v, _ => if (rb.push v).2 then q ++ [v] else q
  | .pop, _    => if (rb.pop default).2.2 then q.drop 1 else q

theorem holds_held {rb rb' : SpScRingBuffer T} {n : Nat} {q : List T} {a : BufferCall T} (h : Holds rb n q)
    (hst : (pushesAndPops rb).step rb a = some rb') : Holds rb' n (held q rb a rb') := by
  cases a with
  | push v =>
    cases hst
    simp only [held]
    rw [h.push_ok]
    by_cases hlt : q.length + 1 < n
    · rw [if_pos (decide_eq_true hlt)]
      exact h.push hlt
    · rw [decide_eq_false hlt, if_neg nofun, h.push_eq, if_neg hlt]
      exact h
  | pop =>
    cases hst
    simp only [held]
    cases q with
    | nil => rw [h.pop_nil]; exact h
    | cons v q =>
      have hpop := h.pop default
      rw [h.pop_cons] at hpop ⊢
      exact hpop

theorem reachable_holds {rb₀ rb₁ rb : SpScRingBuffer T} {n : SizeT} {q : List T} (hinit : rb₀.init n = (rb₁, true))
    (hs : ((pushesAndPops rb₁).withHistory [] held).Reachable (rb, q)) : Holds rb n.toNat q :=
  hs.history_invariant (J := fun _ => True) (I := fun rb q => Holds rb n.toNat q) (fun _ _ => trivial)
    (init_holds hinit) (fun _ _ _ _ _ hI hst => holds_held hI hst)

/-- **When a refused push means a full buffer**: in every state reached from an accepted `init` by pushes and pops,
`push` is refused only of a buffer that holds `capacity()` elements exactly as long as it holds less than one short of
that; and such a buffer can hold an element exactly if its capacity is more than one. -/
theorem push_refused {rb₀ rb₁ : SpScRingBuffer T} {n : SizeT} (hinit : rb₀.init n = (rb₁, true)) :
    (∀ rb q, ((pushesAndPops rb₁).withHistory [] held).Reachable (rb, q) →
      ((∀ v, (rb.push v).2 = false → q.length = rb.capacity.toNat) ↔ q.length + 1 < rb.capacity.toNat)) ∧
    ((∃ rb q, ((pushesAndPops rb₁).withHistory [] held).Reachable (rb, q) ∧ 0 < q.length) ↔
      1 < rb₁.capacity.toNat) := by
  refine ⟨fun rb q hs => ?_, ?_⟩
  · have h := reachable_holds hinit hs
    have hspace := h.space
    rw [h.ring.capacity]
    constructor
    · intro hall
      by_contra hge
      have := hall default (by rw [h.push_ok]; exact decide_eq_false hge)
      omega
    · intro hlt v hv
      rw [h.push_ok] at hv
      exact absurd hlt (of_decide_eq_false hv)
  · have hstart := init_holds hinit
    rw [hstart.ring.capacity]
    constructor
    · rintro ⟨rb, q, hs, hpos⟩
      have := (reachable_holds hinit hs).space
      omega
    · intro hlt
      have hok : (rb₁.push default).2 = true := by
        rw [hstart.push_ok]; exact decide_eq_true hlt
      refine ⟨(rb₁.push default).1, [default], .step (.push default) .init (Machine.withHistory_step.2 ⟨rfl, ?_⟩),
        Nat.one_pos⟩
      show [default] = held [] rb₁ (.push default) _
      simp only [held]
      rw [if_pos hok]; rfl

def two : SpScRingBuffer Nat := (({} : SpScRingBuffer Nat).init 2).1

/-- A buffer of two slots after one push: the next one would be refused, with one element held. -/
theorem push_refused_two : ∃ rb q, ((pushesAndPops two).withHistory [] held).Reachable (rb, q) ∧ q = [7] ∧
    ((∀ v, (rb.push v).2 = false → q.length = 2) ↔ q.length + 1 < 2) := by
  obtain ⟨p, hrun⟩ : ∃ p, ((pushesAndPops two).withHistory [] held).runFrom
      ((pushesAndPops two).withHistory [] held).init [.push 7] = some p := ⟨_, rfl⟩
  have hs := Machine.reachable_of_run _ hrun
  have hcap : p.1.capacity = 2 := by cases hrun; rfl
  have hq : p.2 = [7] := by cases hrun; rfl
  obtain ⟨hall, -⟩ := push_refused (show ({} : SpScRingBuffer Nat).init 2 = (two, true) from rfl)
  have hiff := hall p.1 p.2 hs
  rw [hcap] at hiff
  exact ⟨p.1, p.2, hs, hq, hiff⟩

/-- **A buffer of capacity one holds nothing**: its first push is refused. -/
theorem exists_refusedEarly : ¬ ∀ (rb₀ rb₁ : SpScRingBuffer Nat) (n : SizeT), rb₀.init n = (rb₁, true) →
    ∀ rb q, ((pushesAndPops rb₁).withHistory [] held).Reachable (rb, q) → ∀ v, (rb.push v).2 = false →
      q.length = rb.capacity.toNat := by
  intro hall
  have := hall {} (({} : SpScRingBuffer Nat).init 1).1 1 rfl _ _ .init 5 rfl
  cases this

end Refinement

end SpScRingBuffer
end ThreadMessaging

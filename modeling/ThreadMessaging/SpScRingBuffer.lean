import Mathlib.Algebra.Group.Nat.Defs
import Mathlib.Data.Nat.ModEq
/-!
# `SpScRingBuffer`: the data and the operations of one thread

The class of `threading/spScRingBuffer.hpp` as one thread sees it: every call runs alone.  Indices, capacity and mask
are `std::size_t`, 64 bits wide; the vector is a list.  A call that takes an out argument returns it with the buffer,
so that "unchanged" can be said of both.

`next` is the one piece of index arithmetic, `(i + 1) & m_mask`; `Ring n` collects what an accepted capacity is, and
`toNat_next` says that stepping is counting modulo the capacity (`spScRingBuffer.hpp`, "used to wrap indices via
bitwise AND instead of modulo").
-/
namespace ThreadMessaging

/-- `std::size_t`. -/
abbrev SizeT := BitVec 64

structure SpScRingBuffer (T : Type) where
  buffer      : List T := []
  capacity    : SizeT := 0
  mask        : SizeT := 0
  head        : SizeT := 0
  tail        : SizeT := 0
  initialized : Bool := false
  deriving DecidableEq, Repr

namespace SpScRingBuffer

variable {T : Type}

/-- `std::vector::resize`: the first elements stay, new ones are value-initialised. -/
def resize [Inhabited T] (buffer : List T) (n : Nat) : List T :=
  buffer.take n ++ List.replicate (n - buffer.length) default

def init [Inhabited T] (rb : SpScRingBuffer T) (capacityPowerOfTwo : SizeT) : SpScRingBuffer T × Bool :=
  if capacityPowerOfTwo = 0 then (rb, false)
  else if capacityPowerOfTwo &&& (capacityPowerOfTwo - 1) ≠ 0 then (rb, false)
  else
    ({ buffer      := resize rb.buffer capacityPowerOfTwo.toNat
       capacity    := capacityPowerOfTwo
       mask        := capacityPowerOfTwo - 1
       head        := 0
       tail        := 0
       initialized := true }, true)

/-- The index after `i`: `(i + 1) & m_mask`. -/
def next (mask i : SizeT) : SizeT := (i + 1) &&& mask

def push (rb : SpScRingBuffer T) (value : T) : SpScRingBuffer T × Bool :=
  if !rb.initialized then (rb, false)
  else if next rb.mask rb.head = rb.tail then (rb, false)
  else ({ rb with buffer := rb.buffer.set rb.head.toNat value, head := next rb.mask rb.head }, true)

/-- The buffer, the out argument and the result. -/
def pop [Inhabited T] (rb : SpScRingBuffer T) (out : T) : SpScRingBuffer T × T × Bool :=
  if !rb.initialized then (rb, out, false)
  else if rb.tail = rb.head then (rb, out, false)
  else ({ rb with tail := next rb.mask rb.tail }, rb.buffer.getD rb.tail.toNat default, true)

def empty (rb : SpScRingBuffer T) : Bool :=
  if !rb.initialized then true else rb.tail = rb.head

def full (rb : SpScRingBuffer T) : Bool :=
  if !rb.initialized then false else next rb.mask rb.head = rb.tail

/-- Two counters less than a capacity apart have different slots. -/
theorem mod_ne_mod {a b n : Nat} (hlt : a < b) (hn : b < a + n) : a % n ≠ b % n := by
  intro he
  have hle : n ≤ b - a := Nat.le_of_dvd (by omega) ((Nat.modEq_iff_dvd' (Nat.le_of_lt hlt)).1 he)
  omega

/-! ## What `init` accepts -/

/-- **A buffer that `init` set up with capacity `n`**: a power of two, its mask, and a slot for each index. -/
structure Ring (rb : SpScRingBuffer T) (n : Nat) : Prop where
  pow         : ∃ k, k < 64 ∧ n = 2 ^ k
  capacity    : rb.capacity.toNat = n
  mask        : rb.mask.toNat = n - 1
  size        : rb.buffer.length = n
  initialized : rb.initialized = true

theorem Ring.pos {rb : SpScRingBuffer T} {n : Nat} (h : Ring rb n) : 0 < n := by
  obtain ⟨k, -, rfl⟩ := h.pow
  exact Nat.two_pow_pos k

theorem Ring.le {rb : SpScRingBuffer T} {n : Nat} (h : Ring rb n) : n ≤ 2 ^ 63 := by
  obtain ⟨k, hk, rfl⟩ := h.pow
  exact Nat.pow_le_pow_right (by decide) (by omega)

theorem length_resize [Inhabited T] (buffer : List T) (n : Nat) : (resize buffer n).length = n := by
  simp only [resize, List.length_append, List.length_take, List.length_replicate]
  omega

theorem and_pred_eq_zero_iff (n : SizeT) (h : n ≠ 0) :
    n &&& (n - 1) = 0 ↔ ∃ k, k < 64 ∧ n.toNat = 2 ^ k := by
  have hne : n.toNat ≠ 0 := fun h0 => h (BitVec.eq_of_toNat_eq (by simpa using h0))
  have hpred : (n - 1).toNat = n.toNat - 1 := by
    have : n.toNat < 2 ^ 64 := n.isLt
    bv_omega
  rw [← BitVec.toNat_inj, BitVec.toNat_and, hpred, show (0 : SizeT).toNat = 0 from rfl,
    Nat.and_sub_one_eq_zero_iff_isPowerOfTwo hne]
  constructor
  · rintro ⟨k, hk⟩
    refine ⟨k, ?_, hk⟩
    have hlt : 2 ^ k < 2 ^ 64 := by rw [← hk]; exact n.isLt
    exact (Nat.pow_lt_pow_iff_right (by decide)).1 hlt
  · rintro ⟨k, -, hk⟩
    exact ⟨k, hk⟩

theorem init_ring [Inhabited T] {rb rb' : SpScRingBuffer T} {n : SizeT} (h : rb.init n = (rb', true)) :
    Ring rb' n.toNat ∧ rb'.head = 0 ∧ rb'.tail = 0 := by
  unfold init at h
  split at h
  · simp at h
  · rename_i h0
    split at h
    · simp at h
    · rename_i hp
      obtain ⟨rfl, -⟩ := Prod.mk.inj h
      have hpred : (n - 1).toNat = n.toNat - 1 := by
        have : n.toNat ≠ 0 := fun hz => h0 (BitVec.eq_of_toNat_eq (by simpa using hz))
        bv_omega
      exact ⟨⟨(and_pred_eq_zero_iff n h0).1 (Decidable.not_not.1 hp), rfl, hpred, length_resize _ _, rfl⟩, rfl, rfl⟩

/-- **Stepping an index counts modulo the capacity.** -/
theorem Ring.toNat_next {rb : SpScRingBuffer T} {n : Nat} (h : Ring rb n) (i : SizeT) (hi : i.toNat < n) :
    (next rb.mask i).toNat = (i.toNat + 1) % n := by
  obtain ⟨k, hk, hn⟩ := h.pow
  have hle := h.le
  have hsucc : (i + 1).toNat = i.toNat + 1 := by bv_omega
  unfold next
  rw [BitVec.toNat_and, hsucc, h.mask, hn, Nat.and_two_pow_sub_one_eq_mod]

end SpScRingBuffer
end ThreadMessaging

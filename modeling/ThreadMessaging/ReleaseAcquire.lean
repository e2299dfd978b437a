import Mathlib.Data.List.Basic
/-!
# Release stores and acquire loads, one writer

An atomic location that one thread stores to and another loads from keeps every value ever stored, oldest first
(`Atomic`).  An acquire load may return any of them that is not older than the one its thread has seen last
(`Atomic.Loads`): loads may lag, and do not go back.

A plain location written by the storing thread keeps its writes, each with the number of the release store that
comes after it in that thread (`Write.stamp`).  A reader that has seen store number `seen` sees every write stamped at
or below it; it may read any write with no later one that it sees (`Readable`).  So a read may be stale, or racy, unless
a proof says otherwise: `readable_last` is the one way to exclude it.
-/
namespace ThreadMessaging

variable {α : Type}

/-- An atomic with one writer: all the values stored to it, oldest first. -/
structure Atomic (α : Type) where
  stores : List α
  ne     : stores ≠ []
  deriving DecidableEq, Repr

namespace Atomic

def of (a : α) : Atomic α := ⟨[a], List.cons_ne_nil _ _⟩

def latest (x : Atomic α) : α := x.stores.getLast x.ne

def store (x : Atomic α) (a : α) : Atomic α := ⟨x.stores ++ [a], by simp⟩

/-- **A thread that has seen store number `seen` may load store number `j`, of value `a`.** -/
def Loads (x : Atomic α) (seen j : Nat) (a : α) : Prop := seen ≤ j ∧ x.stores[j]? = some a

def newest (x : Atomic α) : Nat := x.stores.length - 1

theorem length_eq (x : Atomic α) : x.stores.length = x.newest + 1 := by
  have : 0 < x.stores.length := List.length_pos_iff.2 x.ne
  unfold newest
  omega

@[simp] theorem newest_store (x : Atomic α) (a : α) : (x.store a).newest = x.newest + 1 := by
  have := x.length_eq
  simp only [newest, store, List.length_append, List.length_singleton]
  omega

theorem getElem?_newest (x : Atomic α) : x.stores[x.newest]? = some x.latest := by
  rw [latest, ← List.getLast?_eq_some_getLast, List.getLast?_eq_getElem?]
  rfl

theorem getElem?_store (x : Atomic α) (a : α) (i : Nat) :
    (x.store a).stores[i]? = if i = x.newest + 1 then some a else x.stores[i]? := by
  have hl := x.length_eq
  simp only [store, List.getElem?_append, hl]
  split
  · rw [if_neg (by omega)]
  · rename_i hge
    by_cases hi : i = x.newest + 1
    · simp [hi]
    · rw [if_neg hi, List.getElem?_eq_none (by simp; omega), List.getElem?_eq_none (by omega)]

theorem Loads.le_newest {x : Atomic α} {seen j : Nat} {a : α} (h : x.Loads seen j a) : j ≤ x.newest := by
  obtain ⟨hj, -⟩ := List.getElem?_eq_some_iff.1 h.2
  have := x.length_eq
  omega

end Atomic

/-! ## Plain locations -/

/-- A write to a plain location: its value and the number of the release store that publishes it. -/
structure Write (α : Type) where
  value : α
  stamp : Nat
  deriving DecidableEq, Repr

/-- **A reader that has seen store number `seen` may read the `k`-th of the writes `ws`**: none after it is one the
reader sees. -/
def Readable (ws : List (Write α)) (seen k : Nat) : Prop := ∀ w ∈ ws.drop (k + 1), seen < w.stamp

instance (ws : List (Write α)) (seen k : Nat) : Decidable (Readable ws seen k) := by
  unfold Readable; infer_instance

/-- **If the reader sees the last write, it reads that one.** -/
theorem readable_last {ws : List (Write α)} {w v : Write α} {seen k : Nat} (hlast : ws.getLast? = some w)
    (hseen : w.stamp ≤ seen) (hk : ws[k]? = some v) (h : Readable ws seen k) : v = w := by
  obtain ⟨ys, rfl⟩ := List.getLast?_eq_some_iff.1 hlast
  by_cases hlen : k = ys.length
  · subst hlen
    simpa using hk.symm
  · have hlt : k < ys.length := by
      obtain ⟨hk', -⟩ := List.getElem?_eq_some_iff.1 hk
      simp only [List.length_append, List.length_singleton] at hk'
      omega
    have hmem : w ∈ (ys ++ [w]).drop (k + 1) := by
      rw [List.drop_append_of_le_length hlt]
      simp
    have := h w hmem
    omega

end ThreadMessaging

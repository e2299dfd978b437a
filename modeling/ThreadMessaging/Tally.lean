import Mathlib.Algebra.BigOperators.Group.Finset.Basic
import Mathlib.Algebra.BigOperators.Group.Finset.Piecewise
import Mathlib.Algebra.Order.BigOperators.Group.Finset
import Mathlib.Data.Fintype.Basic
/-!
# Weighing the threads of a machine

Any number of threads, each at a place of type `β`, is a function `f : ι → β` on a finite type.  `tally w f` adds up a
weight over the threads' places (a weight that is 0 or 1 counts threads).  A step that moves one thread changes one
summand (`tally_update`), which is all an invariant that counts threads needs.
-/
namespace ThreadMessaging

variable {ι β : Type} [Fintype ι]

/-- The weights of all the threads' places together. -/
def tally (w : β → Nat) (f : ι → β) : Nat := ∑ i, w (f i)

/-- **Moving one thread exchanges one weight.** -/
theorem tally_update [DecidableEq ι] (w : β → Nat) (f : ι → β) (i : ι) (b : β) :
    tally w (Function.update f i b) + w (f i) = tally w f + w b := by
  have hw : ∀ j, w (Function.update f i b j) = Function.update (fun j => w (f j)) i (w b) j := by
    intro j
    by_cases hj : j = i
    · subst hj; simp
    · simp [hj]
  have hf : tally w f = w (f i) + ∑ j ∈ Finset.univ \ {i}, w (f j) := by
    rw [Finset.sdiff_singleton_eq_erase, Finset.add_sum_erase _ (fun j => w (f j)) (Finset.mem_univ i)]
    rfl
  rw [hf, tally, Finset.sum_congr rfl (fun j _ => hw j), Finset.sum_update_of_mem (Finset.mem_univ i)]
  omega

theorem tally_update_of_eq [DecidableEq ι] {w : β → Nat} {f : ι → β} {i : ι} {b : β} (h : w b = w (f i)) :
    tally w (Function.update f i b) = tally w f := by
  have := tally_update w f i b
  omega

theorem tally_eq_zero {w : β → Nat} {f : ι → β} (h : ∀ i, w (f i) = 0) : tally w f = 0 :=
  Finset.sum_eq_zero (fun i _ => h i)

/-- One thread weighs no more than all of them. -/
theorem le_tally (w : β → Nat) (f : ι → β) (i : ι) : w (f i) ≤ tally w f :=
  Finset.single_le_sum (f := fun i => w (f i)) (fun _ _ => Nat.zero_le _) (Finset.mem_univ i)

theorem exists_of_tally_pos {w : β → Nat} {f : ι → β} (h : 0 < tally w f) : ∃ i, 0 < w (f i) := by
  by_contra hno
  have hzero : tally w f = 0 := tally_eq_zero (fun i => by have := not_exists.1 hno i; omega)
  omega

/-- **What one thread loses another may take on**: with more lost than taken on, and nobody else heavier, they weigh
less together. -/
theorem sum_lt_of_handover [DecidableEq ι] {f g : ι → Nat} {i j : ι} (d : Nat) (hi : g i + d < f i)
    (hj : g j ≤ f j + d) (ho : ∀ k, k ≠ i → k ≠ j → g k ≤ f k) : ∑ k, g k < ∑ k, f k := by
  have hle : ∀ k, g k + (if k = i then d else 0) ≤ f k + if k = j then d else 0 := by
    intro k
    by_cases hki : k = i
    · rw [hki, if_pos rfl]; omega
    · by_cases hkj : k = j
      · rw [if_neg hki, hkj, if_pos rfl]; omega
      · rw [if_neg hki, if_neg hkj]
        exact ho k hki hkj
  have hlt : g i + (if i = i then d else 0) < f i + if i = j then d else 0 := by
    rw [if_pos rfl]; omega
  have hsum : ∑ k, (g k + if k = i then d else 0) < ∑ k, (f k + if k = j then d else 0) :=
    Finset.sum_lt_sum (fun k _ => hle k) ⟨i, Finset.mem_univ i, hlt⟩
  simp only [Finset.sum_add_distrib, Finset.sum_ite_eq', Finset.mem_univ, if_true] at hsum
  omega

end ThreadMessaging

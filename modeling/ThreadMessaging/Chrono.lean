import Mathlib.Tactic.Linarith
/-!
# Durations in counts of a period

A duration is a whole number of periods, a period a fraction of a second.  `durationCast` counts a duration in another
period and rounds towards zero, as `std::chrono::duration_cast` does: of two instants that are not negative, each cast
on its own, the difference is off by less than one of the new periods, either way (`lt_of_lt_durationCast_sub`,
`lt_durationCast_sub`).  Counts have 64 bits: `durationCast64` is the cast as it is computed, with a product that can
overflow.
-/
namespace ThreadMessaging

/-- A period of `num / den` seconds. -/
structure Period where
  num     : Nat
  den     : Nat
  num_pos : 0 < num
  den_pos : 0 < den

namespace Period

def nano : Period := ⟨1, 1000000000, by decide, by decide⟩

def milli : Period := ⟨1, 1000, by decide, by decide⟩

/-- How many parts `p` has where `q` has `q.parts p`. -/
def parts (p q : Period) : Int := p.num * q.den

theorem parts_pos (p q : Period) : 0 < p.parts q :=
  Int.mul_pos (Int.natCast_pos.2 p.num_pos) (Int.natCast_pos.2 q.den_pos)

end Period

/-- `c` periods `p`, counted in periods `q`. -/
def durationCast (p q : Period) (c : Int) : Int := (c * p.parts q).tdiv (q.parts p)

/-- A count in 64 bits.  One that does not fit wraps; in C++ its overflow is undefined. -/
def count64 (n : Int) : Int := n.bmod (2 ^ 64)

/-- The cast in 64 bits, by the reduced fraction of the two periods; by a numerator of 1 nothing is multiplied. -/
def durationCast64 (p q : Period) (c : Int) : Int :=
  let g := Int.gcd (p.parts q) (q.parts p)
  if p.parts q / g = 1 then c.tdiv (q.parts p / g) else (count64 (c * (p.parts q / g))).tdiv (q.parts p / g)

theorem count64_eq {n : Int} (h : -2 ^ 63 ≤ n) (h' : n < 2 ^ 63) : count64 n = n :=
  Int.bmod_eq_of_le (by omega) (by omega)

theorem count64_lt (n : Int) : count64 n < 2 ^ 63 := by
  have := Int.bmod_lt (x := n) (m := 2 ^ 64) (by decide)
  unfold count64
  omega

variable {p q : Period}

@[simp] theorem durationCast64_self (p : Period) (c : Int) : durationCast64 p p c = c := by
  have hpos := p.parts_pos p
  have hg : ((Int.gcd (p.parts p) (p.parts p) : Nat) : Int) = p.parts p := by
    rw [Int.gcd_self, Int.natCast_natAbs, abs_of_pos hpos]
  unfold durationCast64
  dsimp only
  rw [hg, Int.ediv_self hpos.ne', if_pos rfl, Int.tdiv_one]

@[simp] theorem durationCast_self (p : Period) (c : Int) : durationCast p p c = c :=
  Int.mul_tdiv_cancel c (p.parts_pos p).ne'

/-- **A later instant is not cast to an earlier one.** -/
theorem durationCast_mono {c c' : Int} (h : c ≤ c') : durationCast p q c ≤ durationCast p q c' :=
  Int.tdiv_le_tdiv (q.parts_pos p) (Int.mul_le_mul_of_nonneg_right h (p.parts_pos q).le)

theorem durationCast_eq_ediv {c : Int} (h : 0 ≤ c) : durationCast p q c = c * p.parts q / q.parts p :=
  Int.tdiv_eq_ediv_of_nonneg (Int.mul_nonneg h (p.parts_pos q).le)

/-- The cast of a duration that is not negative is what it has of whole new periods. -/
theorem durationCast_mul_le {c : Int} (h : 0 ≤ c) : durationCast p q c * q.parts p ≤ c * p.parts q := by
  rw [durationCast_eq_ediv h]
  exact Int.ediv_mul_le _ (q.parts_pos p).ne'

theorem lt_durationCast_add_one_mul {c : Int} (h : 0 ≤ c) : c * p.parts q < (durationCast p q c + 1) * q.parts p := by
  rw [durationCast_eq_ediv h]
  exact Int.lt_ediv_add_one_mul_self _ (q.parts_pos p)

/-- **More than `d` new periods between the casts are more than `d` between the instants.** -/
theorem lt_of_lt_durationCast_sub {s n d : Int} (hs : 0 ≤ s) (hn : 0 ≤ n)
    (h : d < durationCast p q n - durationCast p q s) : d * q.parts p < (n - s) * p.parts q := by
  have hle := durationCast_mul_le (p := p) (q := q) hn
  have hlt := lt_durationCast_add_one_mul (p := p) (q := q) hs
  have hd : (d + 1) * q.parts p ≤ (durationCast p q n - durationCast p q s) * q.parts p :=
    Int.mul_le_mul_of_nonneg_right h (q.parts_pos p).le
  linarith

/-- **A whole new period more than `d` between the instants are more than `d` between the casts.** -/
theorem lt_durationCast_sub {s n d : Int} (hs : 0 ≤ s) (hn : 0 ≤ n)
    (h : (d + 1) * q.parts p ≤ (n - s) * p.parts q) : d < durationCast p q n - durationCast p q s := by
  have hle := durationCast_mul_le (p := p) (q := q) hs
  have hlt := lt_durationCast_add_one_mul (p := p) (q := q) hn
  by_contra hno
  have hd : (durationCast p q n - durationCast p q s) * q.parts p ≤ d * q.parts p :=
    Int.mul_le_mul_of_nonneg_right (Int.not_lt.1 hno) (q.parts_pos p).le
  linarith

end ThreadMessaging

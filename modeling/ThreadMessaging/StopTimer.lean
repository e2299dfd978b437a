import ThreadMessaging.Chrono
import ThreadMessaging.DataTypes
import ThreadMessaging.Machine
/-!
# `stopTimer`

`time/stopTimer.hpp`: a start point and a timeout in whole milliseconds, and queries that read the clock.  Start points
and clock readings are truncated to milliseconds one by one, so the elapsed time is off by up to a millisecond either
way; `IsElapsed` compares strictly, and so is never early (`isElapsed_at`).  `LeftTime` is zero one tick before that
(`isElapsed_iff_leftTime`).

Counts have 64 bits, and what the code computes with a timeout can overflow: the conversion in `SetTimeout`, the
subtraction in `LeftTime`, where the timeout is negative enough, and the cast of a result to a finer unit.  The
difference of two clock readings in milliseconds always fits.
-/
namespace ThreadMessaging

/-- A timer; both members are in milliseconds. -/
structure StopTimer where
  startPoint : Int := 0
  timeout    : Int := 0
  running    : Bool := false
  deriving DecidableEq, Repr

/-- The operations that change a timer, with the clock they read.  A timeout comes in units of so many milliseconds:
`SetTimeout` compiles for no other unit. -/
inductive TimerAct
  | setTimeout (millis : Nat) (timeout : Int)
  | reset
  | stop
  | start (now : TimePoint)
  | startWith (millis : Nat) (timeout : Int) (now : TimePoint)

namespace StopTimer

/-- `time_point_cast<milliseconds>(Clock::now())`. -/
def currentTime (now : TimePoint) : Int := durationCast .nano .milli now

/-- The assignment converts to milliseconds; the cast before it is to the timeout's own unit. -/
def setTimeout (m : StopTimer) (millis : Nat) (timeout : Int) : StopTimer :=
  { m with timeout := count64 (timeout * millis) }

def reset (m : StopTimer) : StopTimer := { m with running := false, startPoint := 0 }

def stop (m : StopTimer) : StopTimer := { m with running := false }

def start (m : StopTimer) (now : TimePoint) : StopTimer := { m with running := true, startPoint := currentTime now }

def startWith (m : StopTimer) (millis : Nat) (timeout : Int) (now : TimePoint) : StopTimer :=
  { m.setTimeout millis timeout with running := true, startPoint := currentTime now }

def elapsedTime (m : StopTimer) (unit : Period) (now : TimePoint) : Int :=
  if !m.running then 0 else durationCast64 .milli unit (currentTime now - m.startPoint)

def leftTime (m : StopTimer) (unit : Period) (now : TimePoint) : Int :=
  if !m.running then 0 else durationCast64 .milli unit (count64 (m.timeout - m.elapsedTime .milli now))

def isElapsed (m : StopTimer) (now : TimePoint) : Option Bool :=
  if !m.running then none
  else if m.timeout = 0 then some true
  else some (decide (m.elapsedTime .milli now > m.timeout))

def isRunningAndElapsed (m : StopTimer) (now : TimePoint) : Bool := (m.isElapsed now).getD false

def step (m : StopTimer) : TimerAct → Option StopTimer
  | .setTimeout millis timeout    => some (m.setTimeout millis timeout)
  | .reset                        => some m.reset
  | .stop                         => some m.stop
  | .start now                    => some (m.start now)
  | .startWith millis timeout now => some (m.startWith millis timeout now)

/-- A timer, constructed with some timeout, under any operations. -/
def machine (timeout : Int) : Machine StopTimer TimerAct where
  init := { timeout := timeout }
  step := step

/-- The instant of the last `Start`. -/
def noteStart (s : Option TimePoint) (_ : StopTimer) (a : TimerAct) (_ : StopTimer) : Option TimePoint :=
  match a with
  | .start now         => some now
  | .startWith _ _ now => some now
  | _                  => s

/-! ## What the queries compute -/

/-- **A running timer's start point is the truncated instant of its last start.** -/
def StartedAt (m : StopTimer) (s : Option TimePoint) : Prop :=
  m.running = true → ∃ i, s = some i ∧ m.startPoint = currentTime i

theorem startedAt_step {m m' : StopTimer} {s : Option TimePoint} {a : TimerAct} (h : m.StartedAt s)
    (hst : m.step a = some m') : m'.StartedAt (noteStart s m a m') := by
  cases a with
  | setTimeout millis timeout => cases hst; exact h
  | reset => cases hst; exact fun hrun => by cases hrun
  | stop => cases hst; exact fun hrun => by cases hrun
  | start now => cases hst; exact fun _ => ⟨now, rfl, rfl⟩
  | startWith millis timeout now => cases hst; exact fun _ => ⟨now, rfl, rfl⟩

variable {timeout : Int} {m : StopTimer} {s : TimePoint}

theorem startPoint_eq (hm : ((machine timeout).withHistory none noteStart).Reachable (m, some s))
    (hrun : m.running = true) : m.startPoint = currentTime s := by
  have h : m.StartedAt (some s) := hm.history_invariant (J := fun _ => True) (I := StartedAt) (fun _ _ => trivial)
    (fun hrun => by cases hrun) (fun m _ _ _ _ hI hst => startedAt_step (m := m) hI hst)
  obtain ⟨i, hi, hp⟩ := h hrun
  rw [hp, Option.some.inj hi]

theorem elapsedTime_milli (hrun : m.running = true) (n : TimePoint) :
    m.elapsedTime .milli n = currentTime n - m.startPoint := by
  simp [elapsedTime, hrun]

/-- Of two clock readings in 64 bits the difference in milliseconds is far from the bounds of a count. -/
theorem currentTime_sub_lt {s n : TimePoint} (hs : -2 ^ 63 ≤ s) (hn : n < 2 ^ 63) :
    currentTime n - currentTime s < 2 ^ 62 := by
  have hlow : currentTime (-2 ^ 63) ≤ currentTime s := durationCast_mono hs
  have hhigh : currentTime n ≤ currentTime (2 ^ 63) := durationCast_mono hn.le
  have hbounds : -2 ^ 61 ≤ currentTime (-2 ^ 63) ∧ currentTime (2 ^ 63) < 2 ^ 61 := by decide
  omega

theorem leftTime_milli (hrun : m.running = true) (n : TimePoint) :
    m.leftTime .milli n = count64 (m.timeout - m.elapsedTime .milli n) := by
  simp [leftTime, hrun]

theorem isElapsed_eq_some_true (hrun : m.running = true) (n : TimePoint) :
    m.isElapsed n = some true ↔ m.timeout = 0 ∨ m.timeout < m.elapsedTime .milli n := by
  unfold isElapsed
  rw [hrun]
  by_cases h0 : m.timeout = 0
  · simp [h0]
  · simp [h0]

theorem isRunningAndElapsed_eq_true (m : StopTimer) (n : TimePoint) :
    m.isRunningAndElapsed n = true ↔ m.isElapsed n = some true := by
  unfold isRunningAndElapsed
  cases m.isElapsed n with
  | none => simp
  | some b => simp

/-! ## The timeout is never early -/

/-- **`IsElapsed` is never early, and at most a millisecond late**: of a timer started at `s`, whatever was done with it
before, each query at `n` that yields true comes more than the timeout after `s`, each that comes a millisecond more
than the timeout after `s` yields true, and once one does, all later ones do. -/
theorem isElapsed_at (hm : ((machine timeout).withHistory none noteStart).Reachable (m, some s))
    (hrun : m.running = true) (hT : 0 < m.timeout) (hs : 0 ≤ s) :
    (∀ n, s ≤ n → m.isElapsed n = some true → m.timeout * 1000000 < n - s) ∧
    (∀ n, s ≤ n → (m.timeout + 1) * 1000000 ≤ n - s → m.isElapsed n = some true) ∧
    (∀ n n', s ≤ n → n ≤ n' → m.isElapsed n = some true → m.isElapsed n' = some true) := by
  have hstart := startPoint_eq hm hrun
  have hiff : ∀ n, m.isElapsed n = some true ↔ m.timeout < currentTime n - currentTime s := by
    intro n
    rw [isElapsed_eq_some_true hrun, elapsedTime_milli hrun, hstart]
    exact or_iff_right hT.ne'
  have hparts : Period.milli.parts .nano = 1000000000 ∧ Period.nano.parts .milli = 1000 := ⟨rfl, rfl⟩
  refine ⟨fun n hn h => ?_, fun n hn h => ?_, fun n n' _ hle h => ?_⟩
  · have := lt_of_lt_durationCast_sub hs (le_trans hs hn) ((hiff n).1 h)
    rw [hparts.1, hparts.2] at this
    omega
  · refine (hiff n).2 (lt_durationCast_sub hs (le_trans hs hn) ?_)
    rw [hparts.1, hparts.2]
    omega
  · have hmono : currentTime n ≤ currentTime n' := durationCast_mono hle
    have := (hiff n).1 h
    exact (hiff n').2 (by omega)

/-- Started in the last tenth of a millisecond, queried in the first of the fifth after it. -/
theorem isElapsed_at_three : ∃ m : StopTimer, m.timeout = 3 ∧ m.isElapsed 4900000 = some false ∧
    m.isElapsed 5000000 = some true ∧ m.timeout * 1000000 < 5000000 - 1900000 := by
  obtain ⟨p, hrun⟩ : ∃ p, ((machine 0).withHistory none noteStart).runFrom ((machine 0).withHistory none noteStart).init
      [.start 7, .startWith 1 3 1900000] = some p := ⟨_, rfl⟩
  have hpair : p = ({ startPoint := 1, timeout := 3, running := true }, some 1900000) := by cases hrun; rfl
  subst hpair
  have htrue : StopTimer.isElapsed { startPoint := 1, timeout := 3, running := true } 5000000 = some true := by decide
  obtain ⟨hearly, -⟩ := isElapsed_at (Machine.reachable_of_run _ hrun) rfl (by decide) (by decide)
  exact ⟨_, rfl, by decide, htrue, hearly 5000000 (by decide) htrue⟩

/-! ## The two deadline queries -/

/-- **The two deadline queries agree but at one reading**: when the elapsed time is equal to a timeout that is not zero,
there is no time left and the timeout has not elapsed yet. -/
theorem isElapsed_iff_leftTime (hm : ((machine timeout).withHistory none noteStart).Reachable (m, some s))
    (hrun : m.running = true) (hT : 0 ≤ m.timeout) (hT' : m.timeout < 2 ^ 63) {n : TimePoint} (hs : -2 ^ 63 ≤ s)
    (hn : s ≤ n) (hn' : n < 2 ^ 63) :
    (¬ (m.timeout ≠ 0 ∧ m.elapsedTime .milli n = m.timeout) →
      (m.isElapsed n = some true ↔ m.leftTime .milli n ≤ 0) ∧
      (m.isRunningAndElapsed n = true ↔ m.leftTime .milli n ≤ 0)) ∧
    (m.timeout ≠ 0 ∧ m.elapsedTime .milli n = m.timeout →
      m.isElapsed n = some false ∧ m.isRunningAndElapsed n = false ∧ m.leftTime .milli n = 0) := by
  have hmono : currentTime s ≤ currentTime n := durationCast_mono hn
  have hfar := currentTime_sub_lt hs hn'
  have helapsed := elapsedTime_milli hrun n
  rw [startPoint_eq hm hrun] at helapsed
  have hleft : m.leftTime .milli n = m.timeout - m.elapsedTime .milli n :=
    (leftTime_milli hrun n).trans (count64_eq (by omega) (by omega))
  refine ⟨fun hno => ?_, fun ⟨h0, heq⟩ => ?_⟩
  · have hiff : m.isElapsed n = some true ↔ m.leftTime .milli n ≤ 0 := by
      rw [isElapsed_eq_some_true hrun, hleft]
      constructor
      · rintro (h0 | hlt)
        · omega
        · omega
      · intro hle
        by_cases h0 : m.timeout = 0
        · exact .inl h0
        · have hne : m.elapsedTime .milli n ≠ m.timeout := fun heq => hno ⟨h0, heq⟩
          exact .inr (by omega)
    exact ⟨hiff, (m.isRunningAndElapsed_eq_true n).trans hiff⟩
  · have hfalse : m.isElapsed n = some false := by simp [isElapsed, hrun, h0, heq]
    refine ⟨hfalse, ?_, ?_⟩
    · rw [isRunningAndElapsed, hfalse]; rfl
    · rw [hleft, heq]; omega

/-- A timer restarted with a timeout of 3 ms: at 3 ms nothing is left, at 4 ms it has elapsed. -/
theorem isElapsed_iff_leftTime_three : ∃ m : StopTimer, m.timeout = 3 ∧ m.leftTime .milli 3000000 = 0 ∧
    m.isElapsed 3000000 = some false ∧ m.leftTime .milli 4000000 = -1 ∧ m.isElapsed 4000000 = some true := by
  obtain ⟨p, hrun⟩ : ∃ p, ((machine 5).withHistory none noteStart).runFrom ((machine 5).withHistory none noteStart).init
      [.start 1000000, .stop, .startWith 1 3 0] = some p := ⟨_, rfl⟩
  have hpair : p = ({ startPoint := 0, timeout := 3, running := true }, some 0) := by cases hrun; rfl
  subst hpair
  have hs := Machine.reachable_of_run _ hrun
  obtain ⟨-, hsame⟩ := isElapsed_iff_leftTime hs rfl (by decide) (by decide) (n := 3000000) (by decide) (by decide)
    (by decide)
  obtain ⟨hno, -, hzero⟩ := hsame (by decide)
  obtain ⟨hagree, -⟩ := isElapsed_iff_leftTime hs rfl (by decide) (by decide) (n := 4000000) (by decide) (by decide)
    (by decide)
  have hyes := (hagree (by decide)).1.2 (by decide)
  exact ⟨_, rfl, hzero, hno, by decide, hyes⟩

/-- **The queries differ when the elapsed time is equal to the timeout**: no time is left, and `IsElapsed` is false. -/
theorem exists_notElapsed : ¬ ∀ (timeout : Int) (m : StopTimer) (s n : TimePoint),
    ((machine timeout).withHistory none noteStart).Reachable (m, some s) → m.running = true → 0 ≤ m.timeout →
    m.timeout < 2 ^ 63 → -2 ^ 63 ≤ s → s ≤ n → n < 2 ^ 63 → (m.isElapsed n = some true ↔ m.leftTime .milli n ≤ 0) := by
  intro hall
  obtain ⟨p, hrun⟩ : ∃ p, ((machine 3).withHistory none noteStart).runFrom ((machine 3).withHistory none noteStart).init
      [.start 0] = some p := ⟨_, rfl⟩
  have hpair : p = ({ startPoint := 0, timeout := 3, running := true }, some 0) := by cases hrun; rfl
  subst hpair
  have hiff := hall 3 _ 0 3000000 (Machine.reachable_of_run _ hrun) rfl (by decide) (by decide) (by decide)
    (by decide) (by decide)
  have helapsed := hiff.2 (by decide)
  cases helapsed

end StopTimer
end ThreadMessaging

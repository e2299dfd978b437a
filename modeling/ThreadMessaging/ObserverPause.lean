import Mathlib.Algebra.Group.Int.Defs
import ThreadMessaging.ObserverLoop
/-!
# The arithmetic of a pause

`steady_clock::now() + durationSec` converts the seconds to nanoseconds and adds them up, both in 64 bits.  A clock that
never goes back meets a pause as long as neither leaves them (`pause_kept`); nothing checks that they do not, and a
pause of more than 292 years can end before it begins (`exists_pauseOver`).
-/
namespace ThreadMessaging

/-- The wrap of the conversion is undone by that of the sum, where the sum fits. -/
theorem addSeconds_eq (now : TimePoint) (sec : Int) : addSeconds now sec = ticks (exactly now sec) :=
  Int.add_bmod_bmod

/-- **The code's sum is the exact one just where that fits in 64 bits.** -/
theorem addSeconds_eq_exactly {now : TimePoint} {sec : Int} (h : -2 ^ 63 ≤ exactly now sec) :
    addSeconds now sec = exactly now sec ↔ exactly now sec < 2 ^ 63 := by
  rw [addSeconds_eq]
  constructor
  · intro heq
    rw [← heq]
    exact count64_lt _
  · exact count64_eq h

def LoopAct.clocks : LoopAct → List TimePoint
  | .run        => []
  | .iterate it => it.clocks

def LoopAct.command : LoopAct → Option ObserverCommand
  | .run        => none
  | .iterate it => it.command

/-- A steady clock: it never goes back, and has 64 bits. -/
def Steady (as : List LoopAct) : Prop :=
  (as.flatMap LoopAct.clocks).Pairwise (· ≤ ·) ∧ ∀ c ∈ as.flatMap LoopAct.clocks, c < 2 ^ 63

namespace ObserverLoop

/-- After the command no FileEvent is emitted before its pause is over, unless another pause command is popped. -/
def KeepsSilent (s : ObserverLoop) (cmd : ObserverCommand) (now : TimePoint) : Prop :=
  ∀ it as, it.command = some cmd → it.commandClock = now →
    (∀ a ∈ as, ∀ c ∈ LoopAct.command a, c.type.isPause = false) → Steady (.iterate it :: as) →
    ∀ r e, (r, Payload.fileEvent e) ∈ (s.after addSeconds (.iterate it :: as)).sends →
      exactly now cmd.durationSec ≤ e.sendTime

/-- What a pause of so many seconds says: no overflow on the way to its end, and no event before it. -/
structure PauseKept (s : ObserverLoop) (cmd : ObserverCommand) (now : TimePoint) : Prop where
  conversion : ticks (cmd.durationSec * 1000000000) = cmd.durationSec * 1000000000
  addition   : ticks (now + ticks (cmd.durationSec * 1000000000)) = now + ticks (cmd.durationSec * 1000000000)
  pauseUntil : (s.observer.applyCommand cmd now).pauseUntil = exactly now cmd.durationSec
  silent     : s.KeepsSilent cmd now

/-- No event before `limit`, neither now nor while the pause lasts. -/
structure Silent (limit : TimePoint) (s : ObserverLoop) : Prop where
  paused : limit ≤ s.observer.pauseUntil
  sent   : ∀ r e, (r, Payload.fileEvent e) ∈ s.sends → limit ≤ e.sendTime

variable {plus : TimePoint → Int → TimePoint}

theorem sendTime_of_mem {count : Int32} {now : TimePoint} {r : ChainTask} {e : FileEvent}
    (h : (r, Payload.fileEvent e) ∈ observerSends count now) : e.sendTime = now := by
  simp only [observerSends, sendTo, ChainTask.next, ChainTask.directToProcessing, Option.toList_some, List.map_cons,
    List.map_nil, List.singleton_append, List.mem_cons, Prod.mk.injEq, Payload.fileEvent.injEq, reduceCtorEq, and_false,
    List.not_mem_nil, or_false] at h
  rw [h.2]
  rfl

theorem Silent.iterate {limit : TimePoint} {s : ObserverLoop} {it : Iteration}
    (h : limit ≤ (s.observer.checked plus it).pauseUntil) (hclock : it.pauseClock ≤ it.sendClock) :
    (s.iterate plus it).Silent limit := by
  rcases iterate_cases plus s it with ⟨-, heq⟩ | ⟨hdue, heq⟩
  · rw [heq]
    exact ⟨h, fun r e he => by cases he⟩
  · rw [heq]
    refine ⟨h, fun r e he => ?_⟩
    rw [sendTime_of_mem he]
    exact h.trans (hdue.trans hclock)

theorem pauseUntil_of_mode {o : Observer} {it : Iteration} (h : ∀ c ∈ it.command, c.type.isPause = false) :
    (o.checked plus it).pauseUntil = o.pauseUntil := by
  have hnone : it.commandOf CommandType.isPause = none := by
    refine Option.filter_eq_none_iff.2 (fun c hc => ?_)
    rw [h c hc]
    exact Bool.false_ne_true
  rw [Observer.pauseUntil_checked, hnone]

theorem pauseClock_le {it : Iteration} (h : (LoopAct.iterate it).clocks.Pairwise (· ≤ ·)) :
    it.pauseClock ≤ it.sendClock := by
  simp only [LoopAct.clocks, Iteration.clocks, List.pairwise_cons] at h
  exact h.2.2.1 _ (List.mem_cons_self ..)

theorem Silent.step {limit : TimePoint} {s : ObserverLoop} (h : s.Silent limit) {a : LoopAct}
    (hcmd : ∀ c ∈ a.command, c.type.isPause = false) (hclock : (a.clocks).Pairwise (· ≤ ·)) :
    (s.step plus a).Silent limit := by
  cases a with
  | run => exact ⟨h.paused, fun r e he => by cases he⟩
  | iterate it =>
    refine Silent.iterate ?_ (pauseClock_le hclock)
    rw [pauseUntil_of_mode hcmd]
    exact h.paused

theorem Silent.after {limit : TimePoint} {as : List LoopAct} {s : ObserverLoop} (h : s.Silent limit)
    (hcmd : ∀ a ∈ as, ∀ c ∈ LoopAct.command a, c.type.isPause = false)
    (hclock : ∀ a ∈ as, (LoopAct.clocks a).Pairwise (· ≤ ·)) : (s.after plus as).Silent limit := by
  induction as generalizing s with
  | nil => exact h
  | cons a as ih =>
    refine ih (h.step (hcmd a (List.mem_cons_self ..)) (hclock a (List.mem_cons_self ..))) ?_ ?_
    · exact fun b hb => hcmd b (List.mem_cons_of_mem _ hb)
    · exact fun b hb => hclock b (List.mem_cons_of_mem _ hb)

theorem applyCommandBy_of_isPause {o : Observer} {cmd : ObserverCommand} {now : TimePoint}
    (h : cmd.type.isPause = true) : (o.applyCommandBy plus cmd now).pauseUntil = plus now cmd.durationSec := by
  obtain ⟨type, dur⟩ := cmd
  cases type with
  | stopObserving => rfl
  | startObserving => rfl
  | stressMode => cases h
  | setNormalMode => cases h

theorem pauseUntil_command {o : Observer} {it : Iteration} {cmd : ObserverCommand} (hcmd : it.command = some cmd)
    (hpause : cmd.type.isPause = true) :
    (o.checked plus it).pauseUntil = plus it.commandClock cmd.durationSec := by
  have hsome : it.commandOf CommandType.isPause = some cmd := Option.filter_eq_some_iff.2 ⟨hcmd, hpause⟩
  rw [Observer.pauseUntil_checked, hsome]

theorem Steady.clocks {as : List LoopAct} (h : Steady as) : ∀ a ∈ as, (LoopAct.clocks a).Pairwise (· ≤ ·) := by
  intro a ha
  obtain ⟨l, r, rfl⟩ := List.append_of_mem ha
  have := h.1
  rw [List.flatMap_append, List.flatMap_cons, List.pairwise_append, List.pairwise_append] at this
  exact this.2.1.1

/-- **A pause whose end fits in 64 bits is a pause; one whose end does not is over early.** -/
theorem keepsSilent_iff {s : ObserverLoop} {cmd : ObserverCommand} {now : TimePoint}
    (hpause : cmd.type.isPause = true) (hnow : now < 2 ^ 63) (hlow : -2 ^ 63 ≤ exactly now cmd.durationSec) :
    s.KeepsSilent cmd now ↔ exactly now cmd.durationSec < 2 ^ 63 := by
  constructor
  · intro h
    -- the clock may next read the instant at which the wrapped pause ends
    let c : TimePoint := max now (addSeconds now cmd.durationSec)
    have hc : c < 2 ^ 63 := max_lt hnow (by rw [addSeconds_eq]; exact count64_lt _)
    have hnc : now ≤ c := le_max_left ..
    let it : Iteration := ⟨some cmd, now, c, c, c⟩
    have hsteady : Steady [.iterate it] := by
      refine ⟨?_, ?_⟩
      · simp [LoopAct.clocks, Iteration.clocks, it, hnc]
      · intro x hx
        rcases List.mem_cons.1 hx with rfl | hx
        · exact hnow
        · obtain rfl : x = c := by simpa [it] using hx
          exact hc
    have hdue : (s.observer.checked addSeconds it).pauseUntil ≤ it.pauseClock := by
      rw [pauseUntil_command rfl hpause]
      exact le_max_right ..
    have hsends : (s.after addSeconds [.iterate it]).sends = observerSends (s.count + 1) c := by
      show (s.iterate addSeconds it).sends = _
      rw [iterate_of_due hdue]
    have hle := h it [] rfl rfl (fun a ha => by cases ha) hsteady .appObserver (fileEvent (s.count + 1) c)
      (by rw [hsends]; exact List.mem_cons_self ..)
    exact lt_of_le_of_lt hle hc
  · intro hfits it as hcmd hclock hno hsteady r e he
    have hclocks := Steady.clocks hsteady
    have hfirst : (s.iterate addSeconds it).Silent (exactly now cmd.durationSec) := by
      refine Silent.iterate ?_ (pauseClock_le (hclocks (.iterate it) (List.mem_cons_self ..)))
      rw [pauseUntil_command hcmd hpause, hclock, (addSeconds_eq_exactly hlow).2 hfits]
    have hlast : ((s.iterate addSeconds it).after addSeconds as).Silent (exactly now cmd.durationSec) :=
      hfirst.after hno (fun a ha => hclocks a (List.mem_cons_of_mem _ ha))
    exact hlast.sent r e he

/-- **A pause is kept exactly if its seconds fit in 64 bits as nanoseconds, and its end does too**, whatever the
observer's state; where the end does not fit, an event comes before it. -/
theorem pause_kept {s : ObserverLoop} {cmd : ObserverCommand} {now : TimePoint} (hpause : cmd.type.isPause = true)
    (hdur : 0 ≤ cmd.durationSec) (hdur' : cmd.durationSec < 2 ^ 63) (hnow : -2 ^ 63 ≤ now) (hnow' : now < 2 ^ 63) :
    (s.PauseKept cmd now ↔ cmd.durationSec * 1000000000 < 2 ^ 63 ∧ now + cmd.durationSec * 1000000000 < 2 ^ 63) ∧
    (s.KeepsSilent cmd now ↔ now + cmd.durationSec * 1000000000 < 2 ^ 63) := by
  have hlow : -2 ^ 63 ≤ exactly now cmd.durationSec := by
    have : 0 ≤ cmd.durationSec * 1000000000 := Int.mul_nonneg hdur (by decide)
    exact Int.le_trans hnow (Int.le_add_of_nonneg_right this)
  have hsilent := keepsSilent_iff (s := s) hpause hnow' hlow
  refine ⟨⟨fun h => ⟨?_, hsilent.1 h.silent⟩, fun ⟨hfit, hfits⟩ => ?_⟩, hsilent⟩
  · rw [← h.conversion]
    exact count64_lt _
  · have hconversion : ticks (cmd.durationSec * 1000000000) = cmd.durationSec * 1000000000 :=
      count64_eq (by omega) hfit
    refine ⟨hconversion, ?_, ?_, hsilent.2 hfits⟩
    · rw [hconversion]
      exact count64_eq hlow hfits
    · rw [← Observer.applyCommandBy_addSeconds, applyCommandBy_of_isPause hpause]
      exact (addSeconds_eq_exactly hlow).2 hfits

/-- A pause of an hour at 1000 s. -/
theorem pause_kept_hour : ({} : ObserverLoop).PauseKept { type := .stopObserving, durationSec := 3600 } 1000000000000 :=
  (pause_kept rfl (by decide) (by decide) (by decide) (by decide)).1.2 (by decide)

/-- **The longest pause there is is none**: it ends a second before it begins. -/
theorem exists_pauseOver : ¬ ∀ (s : ObserverLoop) (cmd : ObserverCommand) (now : TimePoint), cmd.type.isPause = true →
    0 ≤ cmd.durationSec → cmd.durationSec < 2 ^ 63 → 0 ≤ now → now < 2 ^ 63 → s.PauseKept cmd now := by
  intro hall
  have h := (hall {} { type := .stopObserving, durationSec := 2 ^ 63 - 1 } 1000000000000 rfl (by decide) (by decide)
    (by decide) (by decide)).pauseUntil
  have hover : (({} : Observer).applyCommand { type := .stopObserving, durationSec := 2 ^ 63 - 1 }
      1000000000000).pauseUntil = 999000000000 := by decide
  rw [show ({} : ObserverLoop).observer = {} from rfl, hover] at h
  revert h
  decide

/-! ## The code's loop and the exact one -/

/-- The sums of the iteration fit in 64 bits. -/
def fits : LoopAct → Bool
  | .run        => true
  | .iterate it => it.command.all (fun cmd =>
      decide (-2 ^ 63 ≤ exactly it.commandClock cmd.durationSec ∧ exactly it.commandClock cmd.durationSec < 2 ^ 63 ∧
        -2 ^ 63 ≤ exactly it.commandClock 30 ∧ exactly it.commandClock 30 < 2 ^ 63))

theorem commanded_eq (o : Observer) {it : Iteration} (h : fits (.iterate it) = true) :
    o.commanded addSeconds it = o.commanded exactly it := by
  cases hcmd : it.command with
  | none => simp only [Observer.commanded, hcmd]
  | some cmd =>
    simp only [fits, hcmd, Option.all_some, decide_eq_true_eq] at h
    have hdur := (addSeconds_eq_exactly h.1).2 h.2.1
    have hthirty := (addSeconds_eq_exactly h.2.2.1).2 h.2.2.2
    simp only [Observer.commanded, hcmd, Observer.applyCommandBy, hdur, hthirty]

theorem iterate_eq (s : ObserverLoop) {it : Iteration} (h : fits (.iterate it) = true) :
    s.iterate addSeconds it = s.iterate exactly it ∧ s.passOf addSeconds it = s.passOf exactly it := by
  have hiterate : s.iterate addSeconds it = s.iterate exactly it := by
    unfold iterate Observer.checked
    rw [commanded_eq s.observer h]
  refine ⟨hiterate, ?_⟩
  simp only [passOf, commanded_eq s.observer h, hiterate]

/-- **While its sums fit, the code's loop is the exact one**, log and all. -/
theorem reachable_exactly {p : ObserverLoop × List LoopEvent}
    (hp : (((machine addSeconds).only (fun _ => fits)).withHistory [] (logged addSeconds)).Reachable p) :
    ((machine exactly).withHistory [] (logged exactly)).Reachable p := by
  induction hp with
  | init => exact .init
  | @step p q a _ hst ih =>
    obtain ⟨hst, hlog⟩ := Machine.withHistory_step.1 hst
    obtain ⟨hfits, hst⟩ := Machine.only_step.1 hst
    refine .step a ih (Machine.withHistory_step.2 ⟨?_, ?_⟩)
    · rw [← hst]
      cases a with
      | run => rfl
      | iterate it => exact congrArg some (iterate_eq p.1 hfits).1.symm
    · rw [hlog]
      cases a with
      | run => rfl
      | iterate it =>
        simp only [logged]
        rw [(iterate_eq p.1 hfits).2]

end ObserverLoop

end ThreadMessaging

import Mathlib.Data.List.Infix
import ThreadMessaging.TestThreads
import ThreadMessaging.Machine
/-!
# The observer's loop (`ObserverIncomingThread::run`)

An iteration pops at most one command and applies it, leaves the stress mode when its time is up, and emits an event
unless it is paused.  Each of these reads the clock on its own.  What a pause ends at and what the stress mode ends at
are sums of a clock and a duration: `plus` is how they are added up, `addSeconds` in the code, `exactly` where the
arithmetic is taken as exact.

With exact sums the observer's members say what the commands have said (`observer_modes`): the mode is that of the
latest mode command, until a check comes too late for it, and the pause that of the latest pause command.  The code's
own sums are exact as long as they fit in 64 bits (`reachable_exactly`), and a pause is kept only then (`pause_kept`).

The events of a run are numbered by an `int`, which has no number for the one that comes after 2147483647 others
(`exists_unnumbered`).
-/
namespace ThreadMessaging

/-- `now` and so many seconds later, in ticks of any size. -/
def exactly (now : TimePoint) (sec : Int) : TimePoint := now + sec * 1000000000

/-- The commands that set a pause; the other two set the mode. -/
def CommandType.isPause : CommandType → Bool
  | .stopObserving  => true
  | .startObserving => true
  | .stressMode     => false
  | .setNormalMode  => false

/-- What an iteration pops, and the clocks it reads: in `applyCommand`, for the auto-exit, for the pause and for the
event. -/
structure Iteration where
  command      : Option ObserverCommand
  commandClock : TimePoint
  exitClock    : TimePoint
  pauseClock   : TimePoint
  sendClock    : TimePoint

namespace Iteration

def clocks (it : Iteration) : List TimePoint := [it.commandClock, it.exitClock, it.pauseClock, it.sendClock]

/-- The iteration's command, if it is one of those. -/
def commandOf (it : Iteration) (ok : CommandType → Bool) : Option ObserverCommand :=
  it.command.filter (fun cmd => ok cmd.type)

/-- The iteration without its command, if it is one of those. -/
def without (it : Iteration) (drop : CommandType → Bool) : Iteration :=
  { it with command := it.command.filter (fun cmd => !drop cmd.type) }

end Iteration

namespace Observer

def applyCommandBy (plus : TimePoint → Int → TimePoint) (o : Observer) (cmd : ObserverCommand) (now : TimePoint) :
    Observer :=
  match cmd.type with
  | .stopObserving  => { o with pauseUntil := plus now cmd.durationSec }
  | .startObserving => { o with pauseUntil := plus now cmd.durationSec }
  | .stressMode     => { o with mode := .stress, interval := 10, stressUntil := plus now 30 }
  | .setNormalMode  => { o with mode := .normal, interval := 500 }

theorem applyCommandBy_addSeconds (o : Observer) (cmd : ObserverCommand) (now : TimePoint) :
    o.applyCommandBy addSeconds cmd now = o.applyCommand cmd now := rfl

/-- The members as the auto-exit check finds them. -/
def commanded (plus : TimePoint → Int → TimePoint) (o : Observer) (it : Iteration) : Observer :=
  match it.command with
  | some cmd => o.applyCommandBy plus cmd it.commandClock
  | none     => o

/-- The members as the pause check finds them. -/
def checked (plus : TimePoint → Int → TimePoint) (o : Observer) (it : Iteration) : Observer :=
  (o.commanded plus it).autoExit it.exitClock

end Observer

/-- The observer between two iterations; `count` is local to `run`, `sends` what the last iteration has sent. -/
structure ObserverLoop where
  observer : Observer := {}
  count    : Int32 := 0
  sends    : List (ChainTask × Payload) := []

/-- An iteration, or the start of another `run`. -/
inductive LoopAct
  | run
  | iterate (it : Iteration)

def LoopAct.without (drop : CommandType → Bool) : LoopAct → LoopAct
  | .run        => .run
  | .iterate it => .iterate (it.without drop)

/-- What an iteration did: the command it applied and the clock that read, the clock of the auto-exit check, which reads
it in the stress mode only, the clock of the pause check, and what was sent. -/
structure Pass where
  command   : Option (ObserverCommand × TimePoint)
  exitRead  : Option TimePoint
  pauseRead : TimePoint
  sends     : List (ChainTask × Payload)

inductive LoopEvent
  | run
  | pass (p : Pass)

namespace ObserverLoop

section Loop

variable (plus : TimePoint → Int → TimePoint)

def iterate (s : ObserverLoop) (it : Iteration) : ObserverLoop :=
  let o := s.observer.checked plus it
  if o.paused it.pauseClock then { s with observer := o, sends := [] }
  else { observer := o, count := s.count + 1, sends := observerSends (s.count + 1) it.sendClock }

def step (s : ObserverLoop) : LoopAct → ObserverLoop
  | .run        => { s with count := 0, sends := [] }
  | .iterate it => s.iterate plus it

/-- The observer after a sequence of iterations and restarts. -/
def after (s : ObserverLoop) (as : List LoopAct) : ObserverLoop := as.foldl (step plus) s

/-- The observer, from its construction on. -/
def machine : Machine ObserverLoop LoopAct where
  init := {}
  step s a := some (s.step plus a)

def passOf (s : ObserverLoop) (it : Iteration) : Pass where
  command   := it.command.map (fun cmd => (cmd, it.commandClock))
  exitRead  := if (s.observer.commanded plus it).mode = .stress then some it.exitClock else none
  pauseRead := it.pauseClock
  sends     := (s.iterate plus it).sends

/-- The log of what has happened, the latest first. -/
def logged (log : List LoopEvent) (s : ObserverLoop) (a : LoopAct) (_ : ObserverLoop) : List LoopEvent :=
  match a with
  | .run        => .run :: log
  | .iterate it => .pass (s.passOf plus it) :: log

end Loop
end ObserverLoop

/-! ## What the log says -/

namespace LoopEvent

/-- The command of an event that meets a condition, and the clock it was applied at. -/
def commandOf (ok : CommandType → Bool) : LoopEvent → Option (ObserverCommand × TimePoint)
  | .run    => none
  | .pass p => p.command.filter (fun c => ok c.1.type)

def modeCommand (e : LoopEvent) : Option (ObserverCommand × TimePoint) := e.commandOf (fun c => !c.isPause)

def pauseCommand (e : LoopEvent) : Option (ObserverCommand × TimePoint) := e.commandOf CommandType.isPause

def exitRead : LoopEvent → Option TimePoint
  | .run    => none
  | .pass p => p.exitRead

end LoopEvent

/-- When the latest pause ends: its command's clock and duration together. -/
def pauseEnd (log : List LoopEvent) : TimePoint :=
  match log.findSome? LoopEvent.pauseCommand with
  | some (cmd, now) => exactly now cmd.durationSec
  | none            => 0

/-- The clocks the auto-exit checks have read since the latest mode command, the check of its own iteration included. -/
def exitReads : List LoopEvent → List TimePoint
  | []       => []
  | e :: log => e.exitRead.toList ++ if e.modeCommand.isSome then [] else exitReads log

/-- **The latest mode command is `StressMode`, and no auto-exit check has read a clock at or past its end since.** -/
def Stressed (log : List LoopEvent) : Prop :=
  ∃ cmd now, log.findSome? LoopEvent.modeCommand = some (cmd, now) ∧ cmd.type = .stressMode ∧
    ∀ c ∈ exitReads log, c < exactly now 30

/-- What each event of the current run has sent, the latest first. -/
def events : List LoopEvent → List (List (ChainTask × Payload))
  | []             => []
  | .run :: _      => []
  | .pass p :: log => if p.sends = [] then events log else p.sends :: events log

theorem stressed_cons_of_mode {e : LoopEvent} {log : List LoopEvent} {cmd : ObserverCommand} {now : TimePoint}
    (he : e.modeCommand = some (cmd, now)) :
    Stressed (e :: log) ↔ cmd.type = .stressMode ∧ ∀ c ∈ e.exitRead, c < exactly now 30 := by
  simp only [Stressed, exitReads, List.findSome?_cons, he, Option.isSome_some, if_true, List.append_nil,
    Option.mem_toList]
  constructor
  · rintro ⟨cmd', now', heq, htype, hall⟩
    cases heq
    exact ⟨htype, hall⟩
  · rintro ⟨htype, hall⟩
    exact ⟨cmd, now, rfl, htype, hall⟩

theorem stressed_cons_of_none {e : LoopEvent} {log : List LoopEvent} {limit : TimePoint} (he : e.modeCommand = none)
    (hlimit : ∀ cmd now, log.findSome? LoopEvent.modeCommand = some (cmd, now) → cmd.type = .stressMode →
      limit = exactly now 30) :
    Stressed (e :: log) ↔ Stressed log ∧ ∀ c ∈ e.exitRead, c < limit := by
  simp only [Stressed, exitReads, List.findSome?_cons, he, Option.isSome_none, Bool.false_eq_true, if_false,
    List.mem_append, Option.mem_toList]
  constructor
  · rintro ⟨cmd, now, hlast, htype, hall⟩
    refine ⟨⟨cmd, now, hlast, htype, fun c hc => hall c (.inr hc)⟩, fun c hc => ?_⟩
    rw [hlimit cmd now hlast htype]
    exact hall c (.inl hc)
  · rintro ⟨⟨cmd, now, hlast, htype, hall⟩, he'⟩
    refine ⟨cmd, now, hlast, htype, fun c hc => ?_⟩
    rcases hc with hc | hc
    · rw [← hlimit cmd now hlast htype]
      exact he' c hc
    · exact hall c hc

/-! ## The members and the log -/

namespace Observer

variable {plus : TimePoint → Int → TimePoint}

theorem autoExit_frame (o : Observer) (now : TimePoint) :
    (o.autoExit now).pauseUntil = o.pauseUntil ∧ (o.autoExit now).stressUntil = o.stressUntil := by
  unfold autoExit
  split
  · exact ⟨rfl, rfl⟩
  · exact ⟨rfl, rfl⟩

theorem autoExit_mode (o : Observer) (now : TimePoint) :
    (o.autoExit now).mode = .stress ↔ o.mode = .stress ∧ now < o.stressUntil := by
  unfold autoExit
  split
  · rename_i h
    simp only [reduceCtorEq, false_iff, not_and, not_lt]
    exact fun _ => h.2
  · rename_i h
    rw [iff_self_and]
    exact fun hmode => lt_of_not_ge (fun hle => h ⟨hmode, hle⟩)

theorem autoExit_interval {o : Observer} (now : TimePoint) (h : o.interval = 10 ↔ o.mode = .stress) :
    (o.autoExit now).interval = 10 ↔ (o.autoExit now).mode = .stress := by
  unfold autoExit
  split
  · simp
  · exact h

/-- **A mode command sets the mode, and leaves the pause alone.** -/
theorem applyCommandBy_of_mode (plus : TimePoint → Int → TimePoint) (o : Observer) {cmd : ObserverCommand}
    (now : TimePoint) (h : cmd.type.isPause = false) :
    (cmd.type = .stressMode ∧
      o.applyCommandBy plus cmd now = { o with mode := .stress, interval := 10, stressUntil := plus now 30 }) ∨
    (cmd.type = .setNormalMode ∧ o.applyCommandBy plus cmd now = { o with mode := .normal, interval := 500 }) := by
  obtain ⟨type, dur⟩ := cmd
  cases type with
  | stopObserving => cases h
  | startObserving => cases h
  | stressMode => exact .inl ⟨rfl, rfl⟩
  | setNormalMode => exact .inr ⟨rfl, rfl⟩

/-- Two observers in the same mode, with the same timer. -/
structure SameMode (o o' : Observer) : Prop where
  mode        : o'.mode = o.mode
  interval    : o'.interval = o.interval
  stressUntil : o'.stressUntil = o.stressUntil

/-- **An iteration without a mode command leaves the mode and its timer alone.** -/
theorem commanded_of_none (plus : TimePoint → Int → TimePoint) (o : Observer) {it : Iteration}
    (h : it.commandOf (fun c => !c.isPause) = none) :
    o.SameMode (o.commanded plus it) := by
  obtain ⟨command, t, e, p, d⟩ := it
  cases command with
  | none => exact ⟨rfl, rfl, rfl⟩
  | some cmd =>
    obtain ⟨type, dur⟩ := cmd
    cases type with
    | stopObserving => exact ⟨rfl, rfl, rfl⟩
    | startObserving => exact ⟨rfl, rfl, rfl⟩
    | stressMode => cases h
    | setNormalMode => cases h

theorem commanded_of_some (plus : TimePoint → Int → TimePoint) (o : Observer) {it : Iteration} {cmd : ObserverCommand}
    (h : it.commandOf (fun c => !c.isPause) = some cmd) :
    o.commanded plus it = o.applyCommandBy plus cmd it.commandClock ∧ cmd.type.isPause = false := by
  obtain ⟨hcmd, hmode⟩ := Option.filter_eq_some_iff.1 h
  exact ⟨by simp only [commanded, hcmd], by simpa using hmode⟩

/-- **The pause after an iteration** is that of its command, if that is one for it. -/
theorem pauseUntil_checked (plus : TimePoint → Int → TimePoint) (o : Observer) (it : Iteration) :
    (o.checked plus it).pauseUntil = match it.commandOf CommandType.isPause with
      | some cmd => plus it.commandClock cmd.durationSec
      | none     => o.pauseUntil := by
  unfold checked
  rw [(autoExit_frame _ _).1]
  obtain ⟨command, t, e, p, d⟩ := it
  cases command with
  | none => rfl
  | some cmd =>
    obtain ⟨type, dur⟩ := cmd
    cases type with
    | stopObserving => rfl
    | startObserving => rfl
    | stressMode => rfl
    | setNormalMode => rfl

/-- The mode, its interval and its timer are what the log says. -/
structure Heeds (o : Observer) (log : List LoopEvent) : Prop where
  interval    : o.interval = 10 ↔ o.mode = .stress
  mode        : o.mode = .stress ↔ Stressed log
  stressUntil : ∀ cmd now, log.findSome? LoopEvent.modeCommand = some (cmd, now) → cmd.type = .stressMode →
    o.stressUntil = exactly now 30

/-- The auto-exit check reads the clock in the stress mode only. -/
theorem exit_of_read {o : Observer} {read : Option TimePoint} {now limit : TimePoint}
    (hread : read = if o.mode = .stress then some now else none) :
    (∀ c ∈ read, c < limit) ↔ (o.mode = .stress → now < limit) := by
  subst hread
  split
  · rename_i h
    simp [h]
  · rename_i h
    simp [h]

theorem Heeds.autoExit {o : Observer} {log : List LoopEvent} {e : LoopEvent} {now : TimePoint} (h : o.Heeds log)
    (he : e.modeCommand = none) (hread : e.exitRead = if o.mode = .stress then some now else none) :
    (o.autoExit now).Heeds (e :: log) where
  interval := autoExit_interval now h.interval
  mode := by
    rw [autoExit_mode, stressed_cons_of_none he h.stressUntil, exit_of_read hread, ← h.mode]
    exact and_congr_right (fun hmode => (imp_iff_right hmode).symm)
  stressUntil cmd t hlast htype := by
    rw [(o.autoExit_frame now).2]
    rw [List.findSome?_cons, he] at hlast
    exact h.stressUntil cmd t hlast htype

/-- A mode command starts afresh, whatever the members were. -/
theorem heeds_command {o : Observer} {log : List LoopEvent} {e : LoopEvent} {cmd : ObserverCommand} {t now : TimePoint}
    (hmode : cmd.type.isPause = false) (he : e.modeCommand = some (cmd, t))
    (hread : e.exitRead = if (o.applyCommandBy exactly cmd t).mode = .stress then some now else none) :
    ((o.applyCommandBy exactly cmd t).autoExit now).Heeds (e :: log) := by
  rcases applyCommandBy_of_mode exactly o t hmode with ⟨htype, heq⟩ | ⟨htype, heq⟩
  · rw [heq] at hread ⊢
    refine ⟨autoExit_interval now (by simp), ?_, fun cmd' t' hlast _ => ?_⟩
    · rw [autoExit_mode, stressed_cons_of_mode he, exit_of_read hread, htype]
      simp
    · rw [List.findSome?_cons, he] at hlast
      cases hlast
      exact (autoExit_frame _ now).2
  · rw [heq] at hread ⊢
    refine ⟨autoExit_interval now (by simp), ?_, fun cmd' t' hlast htype' => ?_⟩
    · rw [autoExit_mode, stressed_cons_of_mode he, htype]
      simp
    · rw [List.findSome?_cons, he] at hlast
      cases hlast
      rw [htype] at htype'
      cases htype'

end Observer

namespace ObserverLoop

variable {plus : TimePoint → Int → TimePoint}

theorem commandOf_passOf (plus : TimePoint → Int → TimePoint) (s : ObserverLoop) (it : Iteration)
    (ok : CommandType → Bool) :
    (LoopEvent.pass (s.passOf plus it)).commandOf ok = (it.commandOf ok).map (fun cmd => (cmd, it.commandClock)) := by
  unfold LoopEvent.commandOf Iteration.commandOf passOf
  cases it.command with
  | none => rfl
  | some cmd => cases hok : ok cmd.type <;> simp [Option.filter_some, hok]

/-- **An iteration keeps the mode to the log.** -/
theorem heeds_iterate {s : ObserverLoop} {log : List LoopEvent} (h : s.observer.Heeds log) (it : Iteration) :
    (s.observer.checked exactly it).Heeds (.pass (s.passOf exactly it) :: log) := by
  have hevent := commandOf_passOf exactly s it (fun c => !c.isPause)
  unfold Observer.checked
  cases hcmd : it.commandOf (fun c => !c.isPause) with
  | none =>
    rw [hcmd] at hevent
    have hsame := Observer.commanded_of_none exactly s.observer hcmd
    have hheeds : (s.observer.commanded exactly it).Heeds log :=
      ⟨by rw [hsame.interval, hsame.mode]; exact h.interval, hsame.mode ▸ h.mode, hsame.stressUntil ▸ h.stressUntil⟩
    exact hheeds.autoExit hevent rfl
  | some cmd =>
    rw [hcmd] at hevent
    obtain ⟨heq, hmode⟩ := Observer.commanded_of_some exactly s.observer hcmd
    rw [heq]
    refine Observer.heeds_command hmode hevent ?_
    simp only [LoopEvent.exitRead, passOf, heq]

/-- **An iteration keeps the pause to the log.** -/
theorem pauseUntil_iterate {s : ObserverLoop} {log : List LoopEvent} (h : s.observer.pauseUntil = pauseEnd log)
    (it : Iteration) :
    (s.observer.checked exactly it).pauseUntil = pauseEnd (.pass (s.passOf exactly it) :: log) := by
  have hevent := commandOf_passOf exactly s it CommandType.isPause
  rw [Observer.pauseUntil_checked]
  unfold pauseEnd
  rw [List.findSome?_cons, LoopEvent.pauseCommand, hevent]
  cases it.commandOf CommandType.isPause with
  | none => exact h
  | some cmd => rfl

theorem observerSends_ne_nil (count : Int32) (now : TimePoint) : observerSends count now ≠ [] := by
  simp [observerSends, sendTo, ChainTask.next]

theorem iterate_of_paused {s : ObserverLoop} {it : Iteration}
    (h : it.pauseClock < (s.observer.checked plus it).pauseUntil) :
    s.iterate plus it = { s with observer := s.observer.checked plus it, sends := [] } :=
  if_pos (decide_eq_true h)

theorem iterate_of_due {s : ObserverLoop} {it : Iteration}
    (h : (s.observer.checked plus it).pauseUntil ≤ it.pauseClock) :
    s.iterate plus it = { observer := s.observer.checked plus it, count := s.count + 1,
                          sends := observerSends (s.count + 1) it.sendClock } :=
  if_neg (by simpa [Observer.paused] using h)

/-- What an iteration can be: it finds the observer paused and sends nothing, or it sends the next event. -/
theorem iterate_cases (plus : TimePoint → Int → TimePoint) (s : ObserverLoop) (it : Iteration) :
    (it.pauseClock < (s.observer.checked plus it).pauseUntil ∧
      s.iterate plus it = { s with observer := s.observer.checked plus it, sends := [] }) ∨
    ((s.observer.checked plus it).pauseUntil ≤ it.pauseClock ∧
      s.iterate plus it = { observer := s.observer.checked plus it, count := s.count + 1,
                            sends := observerSends (s.count + 1) it.sendClock }) := by
  rcases lt_or_ge it.pauseClock (s.observer.checked plus it).pauseUntil with h | h
  · exact .inl ⟨h, iterate_of_paused h⟩
  · exact .inr ⟨h, iterate_of_due h⟩

theorem iterate_observer (s : ObserverLoop) (it : Iteration) :
    (s.iterate plus it).observer = s.observer.checked plus it := by
  rcases iterate_cases plus s it with ⟨-, heq⟩ | ⟨-, heq⟩
  · rw [heq]
  · rw [heq]

theorem sends_iterate (s : ObserverLoop) (it : Iteration) :
    (s.iterate plus it).sends ≠ [] ↔ (s.observer.checked plus it).pauseUntil ≤ it.pauseClock := by
  rcases iterate_cases plus s it with ⟨hpaused, heq⟩ | ⟨hdue, heq⟩
  · rw [heq]
    exact iff_of_false (fun h => h rfl) (not_le_of_gt hpaused)
  · rw [heq]
    exact iff_of_true (observerSends_ne_nil _ _) hdue

/-- The observer and its log, after any number of iterations. -/
structure Logged (s : ObserverLoop) (log : List LoopEvent) : Prop where
  heeds  : s.observer.Heeds log
  pause  : s.observer.pauseUntil = pauseEnd log
  emits  : ∀ p earlier, .pass p :: earlier <:+ log → (p.sends ≠ [] ↔ pauseEnd (.pass p :: earlier) ≤ p.pauseRead)
  count  : s.count = .ofNat (events log).length
  number : ∀ k sends, (events log).reverse[k]? = some sends → ∃ now, sends = observerSends (.ofNat (k + 1)) now

theorem Logged.iterate {s : ObserverLoop} {log : List LoopEvent} (h : s.Logged log) (it : Iteration) :
    (s.iterate exactly it).Logged (.pass (s.passOf exactly it) :: log) := by
  have hpause := pauseUntil_iterate h.pause it
  refine ⟨?_, ?_, fun p earlier hsuffix => ?_, ?_, ?_⟩
  · rw [iterate_observer]
    exact heeds_iterate h.heeds it
  · rw [iterate_observer]
    exact hpause
  · rcases List.suffix_cons_iff.1 hsuffix with heq | hsuffix
    · obtain ⟨hp, rfl⟩ := List.cons.inj heq
      cases hp
      rw [← hpause]
      exact sends_iterate s it
    · exact h.emits p earlier hsuffix
  · rcases iterate_cases exactly s it with ⟨-, heq⟩ | ⟨-, heq⟩
    · simp only [events, passOf, heq, if_true]
      exact h.count
    · simp only [events, passOf, heq, observerSends_ne_nil, if_false, List.length_cons]
      rw [h.count, Int32.ofNat_add]; rfl
  · rcases iterate_cases exactly s it with ⟨-, heq⟩ | ⟨-, heq⟩
    · simp only [events, passOf, heq, if_true]
      exact h.number
    · simp only [events, passOf, heq, observerSends_ne_nil, if_false, List.reverse_cons]
      intro k sends hk
      rw [List.getElem?_append] at hk
      split at hk
      · exact h.number k sends hk
      · rename_i hle
        -- the new event is the one behind all that the run has had
        rw [List.getElem?_singleton] at hk
        split at hk
        · rename_i hk0
          have hlen : k = (events log).length := by
            simp only [List.length_reverse] at hk0 hle
            omega
          cases hk
          exact ⟨it.sendClock, by rw [h.count, hlen, Int32.ofNat_add]; rfl⟩
        · cases hk

theorem Logged.step {s : ObserverLoop} {log : List LoopEvent} (h : s.Logged log) (a : LoopAct) :
    (s.step exactly a).Logged (logged exactly log s a (s.step exactly a)) := by
  cases a with
  | iterate it => exact h.iterate it
  | run =>
    refine ⟨⟨h.heeds.interval, ?_, h.heeds.stressUntil⟩, h.pause, fun p earlier hsuffix => ?_, rfl, ?_⟩
    · refine h.heeds.mode.trans (Iff.symm ?_)
      refine (stressed_cons_of_none (e := .run) rfl h.heeds.stressUntil).trans (and_iff_left ?_)
      exact fun c hc => by cases hc
    · rcases List.suffix_cons_iff.1 hsuffix with heq | hsuffix
      · cases heq
      · exact h.emits p earlier hsuffix
    · intro k sends hk
      simp [logged, events] at hk

theorem reachable_logged {s : ObserverLoop} {log : List LoopEvent}
    (hs : ((machine exactly).withHistory [] (logged exactly)).Reachable (s, log)) : s.Logged log := by
  refine Machine.Reachable.history_invariant (J := fun _ => True) (fun _ _ => trivial) ?_ ?_ hs
  · refine ⟨⟨by simp [machine], ?_, fun cmd now hlast => by cases hlast⟩, rfl, fun p earlier hsuffix => ?_, rfl, ?_⟩
    · refine iff_of_false (by simp [machine]) ?_
      rintro ⟨cmd, now, hlast, -⟩
      cases hlast
    · cases List.suffix_nil.1 hsuffix
    · intro k sends hk
      cases hk
  · intro s log a t _ h hst
    cases hst
    exact h.step a

end ObserverLoop

/-! ## What does not touch what -/

namespace Observer

variable {plus : TimePoint → Int → TimePoint}

theorem SameMode.autoExit {o o' : Observer} (h : o.SameMode o') (now : TimePoint) :
    (o.autoExit now).SameMode (o'.autoExit now) := by
  unfold Observer.autoExit
  rw [h.mode, h.stressUntil]
  split
  · exact ⟨rfl, rfl, rfl⟩
  · exact ⟨h.mode, h.interval, h.stressUntil⟩

theorem commandOf_without (it : Iteration) (drop : CommandType → Bool) :
    (it.without drop).commandOf (fun c => !drop c) = it.commandOf (fun c => !drop c) := by
  simp [Iteration.commandOf, Iteration.without, Option.filter_filter]

/-- **A pause command changes nothing about the mode.** -/
theorem SameMode.checked {o o' : Observer} (h : o.SameMode o') (it : Iteration) :
    (o.checked plus it).SameMode (o'.checked plus (it.without CommandType.isPause)) := by
  refine SameMode.autoExit ?_ it.exitClock
  have hwithout := commandOf_without it CommandType.isPause
  cases hcmd : it.commandOf (fun c => !c.isPause) with
  | none =>
    have hs := commanded_of_none plus o hcmd
    have hs' := commanded_of_none plus o' (hwithout.trans hcmd)
    exact ⟨by rw [hs'.mode, h.mode, hs.mode], by rw [hs'.interval, h.interval, hs.interval],
      by rw [hs'.stressUntil, h.stressUntil, hs.stressUntil]⟩
  | some cmd =>
    obtain ⟨heq, hmode⟩ := commanded_of_some plus o hcmd
    rw [heq, (commanded_of_some plus o' (hwithout.trans hcmd)).1]
    rcases applyCommandBy_of_mode plus o it.commandClock hmode with ⟨htype, -⟩ | ⟨htype, -⟩
    · simp only [applyCommandBy, htype]
      exact ⟨rfl, rfl, rfl⟩
    · simp only [applyCommandBy, htype]
      exact ⟨rfl, rfl, h.stressUntil⟩

/-- **Neither a mode command nor the auto-exit changes the pause.** -/
theorem pauseUntil_without {o o' : Observer} (h : o'.pauseUntil = o.pauseUntil) (it : Iteration) :
    (o'.checked plus (it.without (fun c => !c.isPause))).pauseUntil = (o.checked plus it).pauseUntil := by
  have hwithout := commandOf_without it (fun c => !c.isPause)
  simp only [Bool.not_not] at hwithout
  rw [pauseUntil_checked, pauseUntil_checked, hwithout]
  cases it.commandOf CommandType.isPause with
  | none => exact h
  | some cmd => rfl

end Observer

namespace ObserverLoop

variable {plus : TimePoint → Int → TimePoint}

theorem sameMode_after {s t : ObserverLoop} (h : s.observer.SameMode t.observer) (as : List LoopAct) :
    (s.after plus as).observer.SameMode (t.after plus (as.map (LoopAct.without CommandType.isPause))).observer := by
  induction as generalizing s t with
  | nil => exact h
  | cons a as ih =>
    refine ih ?_
    cases a with
    | run => exact h
    | iterate it =>
      show (s.iterate plus it).observer.SameMode (t.iterate plus _).observer
      rw [iterate_observer, iterate_observer]
      exact h.checked it

theorem pauseUntil_after {s t : ObserverLoop} (h : t.observer.pauseUntil = s.observer.pauseUntil) (as : List LoopAct) :
    (t.after plus (as.map (LoopAct.without (fun c => !c.isPause)))).observer.pauseUntil =
      (s.after plus as).observer.pauseUntil := by
  induction as generalizing s t with
  | nil => exact h
  | cons a as ih =>
    refine ih ?_
    cases a with
    | run => exact h
    | iterate it =>
      show (t.iterate plus _).observer.pauseUntil = (s.iterate plus it).observer.pauseUntil
      rw [iterate_observer, iterate_observer]
      exact Observer.pauseUntil_without h it

/-- **The observer does what its commands have said**, in every run of its loop, whatever clock it reads: the interval
is that of the stress mode in that mode only, the mode that of the latest mode command until an auto-exit check comes
too late for it, and the pause that of the latest pause command; an iteration sends an event exactly if its pause check
reads a clock at or past the end of the pause; and as long as an `int` counts so far, the `k`-th event of a run is a
FileEvent to the application observer and a DirectEvent to the processing task that both carry the number `k`.  From
here on, what pause commands there are makes no difference to the mode, and what mode commands there are none to the
pause. -/
theorem observer_modes {s : ObserverLoop} {log : List LoopEvent}
    (hs : ((machine exactly).withHistory [] (logged exactly)).Reachable (s, log)) :
    (s.observer.interval = 10 ↔ s.observer.mode = .stress) ∧
    (s.observer.mode = .stress ↔ Stressed log) ∧
    s.observer.pauseUntil = pauseEnd log ∧
    (∀ p earlier, .pass p :: earlier <:+ log → (p.sends ≠ [] ↔ pauseEnd (.pass p :: earlier) ≤ p.pauseRead)) ∧
    (∀ (k : Nat) sends, k + 1 < 2 ^ 31 → (events log).reverse[k]? = some sends → ∃ fe de,
      sends = [(.appObserver, .fileEvent fe), (.processing, .directEvent de)] ∧
      fe.fileName = "file_" ++ toString (k + 1) ++ ".txt" ∧ fe.fileSize.toNat = 1024 * (k + 1) ∧
      de.counter.toInt = (k : Int) + 1) ∧
    ∀ as, (s.after exactly as).observer.SameMode
        (s.after exactly (as.map (LoopAct.without CommandType.isPause))).observer ∧
      (s.after exactly (as.map (LoopAct.without (fun c => !c.isPause)))).observer.pauseUntil =
        (s.after exactly as).observer.pauseUntil := by
  have hlogged := reachable_logged hs
  refine ⟨hlogged.heeds.interval, hlogged.heeds.mode, hlogged.pause, hlogged.emits, fun k sends hk hsends => ?_,
    fun as => ⟨sameMode_after ⟨rfl, rfl, rfl⟩ as, pauseUntil_after rfl as⟩⟩
  obtain ⟨now, rfl⟩ := hlogged.number k sends hsends
  rw [observerSends_eq hk]
  refine ⟨_, _, rfl, rfl, ?_, Int32.toInt_ofNat_of_lt hk⟩
  rw [BitVec.toNat_ofNat]
  omega

/-- Stressed at 0 s and once more at 29 s, the observer is in the stress mode at 40 s, at its third event. -/
theorem observer_modes_extended : ∃ s : ObserverLoop, s.observer.mode = .stress ∧ s.observer.interval = 10 ∧
    ∃ fe de, s.sends = [(.appObserver, .fileEvent fe), (.processing, .directEvent de)] ∧
      fe.fileName = "file_3.txt" ∧ fe.fileSize.toNat = 3072 ∧ de.counter.toInt = 3 := by
  obtain ⟨p, hrun⟩ : ∃ p, ((machine exactly).withHistory [] (logged exactly)).runFrom
      ((machine exactly).withHistory [] (logged exactly)).init
      [.iterate ⟨some { type := .stressMode }, 0, 0, 0, 0⟩,
       .iterate ⟨some { type := .stressMode }, 29000000000, 29000000000, 29000000000, 29000000000⟩,
       .iterate ⟨none, 40000000000, 40000000000, 40000000000, 40000000000⟩] = some p := ⟨_, rfl⟩
  have hstressed : Stressed p.2 := by
    cases hrun
    exact ⟨_, _, rfl, rfl, by decide⟩
  have hthird : (events p.2).reverse[2]? = some p.1.sends := by cases hrun; rfl
  obtain ⟨hinterval, hmode, -, -, hnumber, -⟩ := observer_modes (Machine.reachable_of_run _ hrun)
  obtain ⟨fe, de, hsends, hname, hsize, hcounter⟩ := hnumber 2 _ (by decide) hthird
  exact ⟨p.1, hmode.2 hstressed, hinterval.2 (hmode.2 hstressed), fe, de, hsends, hname, hsize, hcounter⟩

/-- A run of the observer, never commanded and never stopped, has as many events as one likes. -/
theorem exists_events (n : Nat) : ∃ s log, ((machine exactly).withHistory [] (logged exactly)).Reachable (s, log) ∧
    s.observer = {} ∧ (events log).length = n := by
  induction n with
  | zero => exact ⟨{}, [], .init, rfl, rfl⟩
  | succ n ih =>
    obtain ⟨s, log, hs, hobs, hlen⟩ := ih
    let idle : Iteration := ⟨none, 0, 0, 0, 0⟩
    have hchecked : s.observer.checked exactly idle = {} := by rw [hobs]; rfl
    have hiter : s.iterate exactly idle =
        { observer := {}, count := s.count + 1, sends := observerSends (s.count + 1) 0 } := by
      rw [iterate_of_due (by rw [hchecked]), hchecked]
    refine ⟨_, _, .step (.iterate idle) hs (Machine.withHistory_step.2 ⟨rfl, rfl⟩), ?_, ?_⟩
    · show (s.iterate exactly idle).observer = {}
      rw [iterate_observer, hchecked]
    · show (events (.pass (s.passOf exactly idle) :: log)).length = n + 1
      simp only [events, passOf, hiter, observerSends_ne_nil, if_false, List.length_cons, hlen]

/-- **No DirectEvent carries the number of the event that comes after 2147483647 others**: its counter is an `int`. -/
theorem exists_unnumbered : ¬ ∀ (s : ObserverLoop) (log : List LoopEvent),
    ((machine exactly).withHistory [] (logged exactly)).Reachable (s, log) → ∀ (k : Nat) sends,
      (events log).reverse[k]? = some sends → ∃ fe de,
        sends = [(.appObserver, .fileEvent fe), (.processing, .directEvent de)] ∧
        fe.fileName = "file_" ++ toString (k + 1) ++ ".txt" ∧ de.counter.toInt = (k : Int) + 1 := by
  intro hall
  obtain ⟨s, log, hs, -, hlen⟩ := exists_events (2 ^ 31)
  have hk : 2 ^ 31 - 1 < (events log).reverse.length := by
    rw [List.length_reverse, hlen]
    decide
  obtain ⟨fe, de, -, -, hcounter⟩ := hall s log hs (2 ^ 31 - 1) _ (List.getElem?_eq_getElem hk)
  have := Int32.toInt_lt de.counter
  omega

end ObserverLoop

end ThreadMessaging

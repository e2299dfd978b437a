import ThreadMessaging.Machine
/-!
# The daemon: signals against `startAll` and `isRunning`

`m_State` is written by an asynchronous signal handler, by `startAll`, by the three perform functions and by the main
thread's `setState(Stop)` and `closeAll`.  Each read and each write of it is a step of its own, and a signal can land
between any two of them, while a user handler runs included.

The history records what happened, newest first; `begun` is the history at the call of the poll in progress.

* `stop_absorbing`: where no step writes `Running` after a stop signal, a poll begun after it returns false.
* `stop_of_not_running`: where no request arrives in a poll behind its own test, unless a stop was asked for before, a
  poll returns false only on a stop.
* `served_of_running`: where no request arrives on top of a pending one of another kind, no request is lost.
* `calls_le_signals`: without any condition, a handler is not called more often than its signal was delivered.

Each condition is needed: the run that breaks it stands after the theorem.
-/
namespace ThreadMessaging

inductive DaemonState
  | start
  | running
  | reload
  | stop
  | user1
  | user2
  deriving DecidableEq, Repr

/-- The signals the constructor installs the handler for. -/
inductive Signal
  | sigint
  | sigterm
  | sighup
  | sigusr1
  | sigusr2
  deriving DecidableEq, Repr

/-- `daemon::signalHandler`: the state a signal writes. -/
def signalHandler : Signal → DaemonState
  | .sigint  => .stop
  | .sigterm => .stop
  | .sighup  => .reload
  | .sigusr1 => .user1
  | .sigusr2 => .user2

/-- The three branches of `isRunning`, each with a state, a signal and a perform function of its own. -/
inductive Request
  | reload
  | user1
  | user2
  deriving DecidableEq, Repr

def Request.state : Request → DaemonState
  | .reload => .reload
  | .user1  => .user1
  | .user2  => .user2

def Request.signal : Request → Signal
  | .reload => .sighup
  | .user1  => .sigusr1
  | .user2  => .sigusr2

/-- The request a signal asks for; SIGINT and SIGTERM ask to stop. -/
def Signal.request : Signal → Option Request
  | .sigint  => none
  | .sigterm => none
  | .sighup  => some .reload
  | .sigusr1 => some .user1
  | .sigusr2 => some .user2

def DaemonState.request : DaemonState → Option Request
  | .reload => some .reload
  | .user1  => some .user1
  | .user2  => some .user2
  | _       => none

theorem Signal.request_eq_some {sig : Signal} {r : Request} : sig.request = some r ↔ sig = r.signal := by
  cases sig <;> cases r <;> simp [request, Request.signal]

theorem DaemonState.request_eq_some {st : DaemonState} {r : Request} : st.request = some r ↔ st = r.state := by
  cases st <;> cases r <;> simp [request, Request.state]

@[simp] theorem signalHandler_signal (r : Request) : signalHandler r.signal = r.state := by cases r <;> rfl

theorem signalHandler_of_request_eq_none {sig : Signal} (h : sig.request = none) : signalHandler sig = .stop := by
  cases sig <;> first | rfl | cases h

theorem signalHandler_ne_running (sig : Signal) : signalHandler sig ≠ .running := by cases sig <;> exact nofun

theorem Request.state_inj {r q : Request} : r.state = q.state ↔ r = q := by
  cases r <;> cases q <;> simp [state]

theorem Request.signal_inj {r q : Request} : r.signal = q.signal ↔ r = q := by
  cases r <;> cases q <;> simp [signal]

inductive DaemonEvent
  | signal (sig : Signal)
  | startAll
  | closeAll
  | setStop
  | handler (r : Request)
  | handlerFailed (r : Request)
  deriving DecidableEq, Repr

/-- Which of the `std::function` members are set. -/
structure DaemonHandlers where
  beforeToStart : Bool
  beforeToExit  : Bool
  request       : Request → Bool

/-- Where the main thread stands; `ret b` is any of its three calls about to return `b`. -/
inductive DaemonPc
  | out
  | startWrite
  | startHandler
  | closeWrite
  | closeHandler
  | test (r : Request)
  | write (r : Request)
  | call (r : Request)
  | inHandler (r : Request)
  | writeStop
  | compare
  | ret (b : Bool)
  deriving DecidableEq, Repr

structure Daemon where
  state    : DaemonState
  handlers : DaemonHandlers
  pc       : DaemonPc
  history  : List DaemonEvent
  begun    : List DaemonEvent

/-- What can happen next: a signal, a call by the main thread, a step of the call in progress (`go`), the return of a
user handler. -/
inductive DaemonAct
  | signal (sig : Signal)
  | startAll
  | isRunning
  | closeAll
  | setStop
  | go
  | returns (ok : Bool)
  deriving DecidableEq, Repr

namespace Daemon

def init (handlers : DaemonHandlers) : Daemon where
  state    := .start
  handlers := handlers
  pc       := .out
  history  := []
  begun    := []

/-- The first write of a perform function, and its test whether there is a handler to call. -/
def performIfRequired (s : Daemon) (r : Request) : Daemon :=
  { s with state := .running, pc := if s.handlers.request r then .call r else .compare }

def performReloadIfRequired (s : Daemon) : Daemon := s.performIfRequired .reload

def performUser1IfRequired (s : Daemon) : Daemon := s.performIfRequired .user1

def performUser2IfRequired (s : Daemon) : Daemon := s.performIfRequired .user2

/-- Where `isRunning` goes when a test fails: its `else if` chain, then the comparison. -/
def nextTest : Request → DaemonPc
  | .reload => .test .user1
  | .user1  => .test .user2
  | .user2  => .compare

def goStep (s : Daemon) : Option Daemon :=
  match s.pc with
  | .startWrite    => some { s with state := .running, history := .startAll :: s.history,
                                    pc := if s.handlers.beforeToStart then .startHandler else .ret false }
  | .closeWrite    => some { s with state := .stop, history := .closeAll :: s.history,
                                    pc := if s.handlers.beforeToExit then .closeHandler else .ret false }
  | .test r        => some { s with pc := if s.state = r.state then .write r else nextTest r }
  | .write .reload => some s.performReloadIfRequired
  | .write .user1  => some s.performUser1IfRequired
  | .write .user2  => some s.performUser2IfRequired
  | .call r        => some { s with history := .handler r :: s.history, pc := .inHandler r }
  | .writeStop     => some { s with state := .stop, pc := .compare }
  | .compare       => some { s with pc := .ret (s.state = .running) }
  | .ret _         => some { s with pc := .out }
  | _              => none

def returnsStep (s : Daemon) (ok : Bool) : Option Daemon :=
  match s.pc with
  | .startHandler => some { s with pc := .ret ok }
  | .closeHandler => some { s with pc := .ret ok }
  | .inHandler r  => if ok then some { s with pc := .compare }
                     else some { s with history := .handlerFailed r :: s.history, pc := .writeStop }
  | _             => none

def step (s : Daemon) : DaemonAct → Option Daemon
  | .signal sig => some { s with state := signalHandler sig, history := .signal sig :: s.history }
  | .startAll   => match s.pc with
                   | .out => some { s with pc := .startWrite }
                   | _    => none
  | .isRunning  => match s.pc with
                   | .out => some { s with pc := .test .reload, begun := s.history }
                   | _    => none
  | .closeAll   => match s.pc with
                   | .out => some { s with pc := .closeWrite }
                   | _    => none
  | .setStop    => match s.pc with
                   | .out         => some { s with state := .stop, history := .setStop :: s.history }
                   | .inHandler _ => some { s with state := .stop, history := .setStop :: s.history }
                   | _            => none
  | .go         => s.goStep
  | .returns ok => s.returnsStep ok

def machine (handlers : DaemonHandlers) : Machine Daemon DaemonAct where
  init := init handlers
  step := step

/-- What the poll in progress is about to return: its final comparison, evaluated now. -/
def isRunningReturns (s : Daemon) : Option Bool :=
  match s.pc with
  | .compare => some (s.state = .running)
  | _        => none

theorem isRunningReturns_eq_some {s : Daemon} {b : Bool} (h : s.isRunningReturns = some b) :
    s.pc = .compare ∧ decide (s.state = .running) = b := by
  unfold isRunningReturns at h
  split at h
  · rename_i hpc; exact ⟨hpc, Option.some.inj h⟩
  · cases h

/-- **What a step can do to the state**, the pc apart: a signal's write, one of the main thread's own, or none. -/
theorem step_cases {s t : Daemon} {a : DaemonAct} (hst : s.step a = some t) :
    (∃ sig, a = .signal sig ∧ t = { s with state := signalHandler sig, history := .signal sig :: s.history }) ∨
    (a = .go ∧ s.goStep = some t) ∨
    (∃ ok, a = .returns ok ∧ s.returnsStep ok = some t) ∨
    (a = .setStop ∧ (s.pc = .out ∨ ∃ r, s.pc = .inHandler r) ∧
      t = { s with state := .stop, history := .setStop :: s.history }) ∨
    (a = .isRunning ∧ s.pc = .out ∧ t = { s with pc := .test .reload, begun := s.history }) ∨
    (s.pc = .out ∧ (t = { s with pc := .startWrite } ∨ t = { s with pc := .closeWrite })) := by
  cases a with
  | signal sig => cases hst; exact .inl ⟨sig, rfl, rfl⟩
  | go => exact .inr (.inl ⟨rfl, hst⟩)
  | returns ok => exact .inr (.inr (.inl ⟨ok, rfl, hst⟩))
  | setStop =>
    simp only [step] at hst
    split at hst
    · rename_i hpc; cases hst; exact .inr (.inr (.inr (.inl ⟨rfl, .inl hpc, rfl⟩)))
    · rename_i r hpc; cases hst; exact .inr (.inr (.inr (.inl ⟨rfl, .inr ⟨r, hpc⟩, rfl⟩)))
    · cases hst
  | isRunning =>
    simp only [step] at hst
    split at hst
    · rename_i hpc; cases hst; exact .inr (.inr (.inr (.inr (.inl ⟨rfl, hpc, rfl⟩))))
    · cases hst
  | startAll =>
    simp only [step] at hst
    split at hst
    · rename_i hpc; cases hst; exact .inr (.inr (.inr (.inr (.inr ⟨hpc, .inl rfl⟩))))
    · cases hst
  | closeAll =>
    simp only [step] at hst
    split at hst
    · rename_i hpc; cases hst; exact .inr (.inr (.inr (.inr (.inr ⟨hpc, .inr rfl⟩))))
    · cases hst

theorem goStep_cases {s t : Daemon} (hst : s.goStep = some t) :
    (s.pc = .startWrite ∧ ∃ pc, t = { s with state := .running, history := .startAll :: s.history, pc := pc } ∧
      (pc = .startHandler ∨ pc = .ret false)) ∨
    (s.pc = .closeWrite ∧ ∃ pc, t = { s with state := .stop, history := .closeAll :: s.history, pc := pc } ∧
      (pc = .closeHandler ∨ pc = .ret false)) ∨
    (∃ r, s.pc = .test r ∧ t = { s with pc := if s.state = r.state then .write r else nextTest r }) ∨
    (∃ r, s.pc = .write r ∧ t = s.performIfRequired r) ∨
    (∃ r, s.pc = .call r ∧ t = { s with history := .handler r :: s.history, pc := .inHandler r }) ∨
    (s.pc = .writeStop ∧ t = { s with state := .stop, pc := .compare }) ∨
    (s.pc = .compare ∧ t = { s with pc := .ret (s.state = .running) }) ∨
    (∃ b, s.pc = .ret b ∧ t = { s with pc := .out }) := by
  unfold goStep at hst
  split at hst
  · rename_i hpc
    cases hst
    refine .inl ⟨hpc, _, rfl, ?_⟩
    split
    · exact .inl rfl
    · exact .inr rfl
  · rename_i hpc
    cases hst
    refine .inr (.inl ⟨hpc, _, rfl, ?_⟩)
    split
    · exact .inl rfl
    · exact .inr rfl
  · rename_i r hpc
    cases hst
    exact .inr (.inr (.inl ⟨r, hpc, rfl⟩))
  iterate 3
    · rename_i hpc
      cases hst
      exact .inr (.inr (.inr (.inl ⟨_, hpc, rfl⟩)))
  · rename_i r hpc
    cases hst
    exact .inr (.inr (.inr (.inr (.inl ⟨r, hpc, rfl⟩))))
  · rename_i hpc
    cases hst
    exact .inr (.inr (.inr (.inr (.inr (.inl ⟨hpc, rfl⟩)))))
  · rename_i hpc
    cases hst
    exact .inr (.inr (.inr (.inr (.inr (.inr (.inl ⟨hpc, rfl⟩))))))
  · rename_i b hpc
    cases hst
    exact .inr (.inr (.inr (.inr (.inr (.inr (.inr ⟨b, hpc, rfl⟩))))))
  · cases hst

theorem returnsStep_cases {s t : Daemon} {ok : Bool} (hst : s.returnsStep ok = some t) :
    ((s.pc = .startHandler ∨ s.pc = .closeHandler) ∧ t = { s with pc := .ret ok }) ∨
    (∃ r, s.pc = .inHandler r ∧ ok = true ∧ t = { s with pc := .compare }) ∨
    (∃ r, s.pc = .inHandler r ∧ ok = false ∧
      t = { s with history := .handlerFailed r :: s.history, pc := .writeStop }) := by
  unfold returnsStep at hst
  split at hst
  · rename_i hpc; cases hst; exact .inl ⟨.inl hpc, rfl⟩
  · rename_i hpc; cases hst; exact .inl ⟨.inr hpc, rfl⟩
  · rename_i r hpc
    cases ok with
    | true => cases hst; exact .inr (.inl ⟨r, hpc, rfl, rfl⟩)
    | false => cases hst; exact .inr (.inr ⟨r, hpc, rfl, rfl⟩)
  · cases hst

/-! ## Stop -/

def stopSignalled (es : List DaemonEvent) : Bool :=
  es.any (fun e => match e with
    | .signal sig => sig.request.isNone
    | _           => false)

/-- The step is one of the code's writes `m_State = Running`: that of `startAll`, or of a perform function. -/
def writesRunning (s : Daemon) : DaemonAct → Bool
  | .go => match s.pc with
           | .startWrite => true
           | .write _    => true
           | _           => false
  | _   => false

/-- **The steps after which a stop signal is not lost**: none writes `Running` once it has been delivered. -/
def keepsStop (s : Daemon) (a : DaemonAct) : Bool := !(stopSignalled s.history && s.writesRunning a)

/-- **The invariant of the runs that keep a stop**: a request may take the place of `Stop`, but not `Running`. -/
structure StopInv (s : Daemon) : Prop where
  stop  : stopSignalled s.history = true → s.state ≠ .running
  begun : stopSignalled s.begun = true → stopSignalled s.history = true

theorem StopInv.keep {s t : Daemon} (h : StopInv s) (hh : stopSignalled t.history = stopSignalled s.history)
    (hs : stopSignalled s.history = true → t.state = s.state ∨ t.state ≠ .running)
    (hb : t.begun = s.begun ∨ t.begun = s.history) : StopInv t := by
  refine ⟨fun hsig => ?_, fun hbeg => ?_⟩
  · rw [hh] at hsig
    rcases hs hsig with heq | heq
    · rw [heq]; exact h.stop hsig
    · exact heq
  · rw [hh]
    rcases hb with heq | heq
    · rw [heq] at hbeg; exact h.begun hbeg
    · rw [heq] at hbeg; exact hbeg

theorem stopInv_step {s t : Daemon} {a : DaemonAct} (h : StopInv s) (hok : s.keepsStop a = true)
    (hst : s.step a = some t) : StopInv t := by
  have hno : stopSignalled s.history = true → s.writesRunning a = false := by
    intro hsig
    simpa [keepsStop, hsig] using hok
  rcases step_cases hst with ⟨sig, rfl, rfl⟩ | ⟨rfl, hgo⟩ | ⟨ok, rfl, hret⟩ | ⟨rfl, -, rfl⟩ | ⟨rfl, -, rfl⟩ |
    ⟨-, rfl | rfl⟩
  · cases hr : sig.request with
    | none =>
      refine ⟨fun _ => signalHandler_ne_running sig, fun _ => ?_⟩
      simp [stopSignalled, hr]
    | some r =>
      exact h.keep (by simp [stopSignalled, hr]) (fun _ => .inr (signalHandler_ne_running sig)) (.inl rfl)
  · rcases goStep_cases hgo with ⟨hpc, pc, rfl, -⟩ | ⟨hpc, pc, rfl, -⟩ | ⟨r, hpc, rfl⟩ | ⟨r, hpc, rfl⟩ | ⟨r, hpc, rfl⟩ |
      ⟨hpc, rfl⟩ | ⟨hpc, rfl⟩ | ⟨b, hpc, rfl⟩
    · exact h.keep rfl (fun hsig => by simp [writesRunning, hpc] at hno; simp [hno] at hsig) (.inl rfl)
    · exact h.keep rfl (fun _ => .inr nofun) (.inl rfl)
    · exact h.keep rfl (fun _ => .inl rfl) (.inl rfl)
    · exact h.keep rfl (fun hsig => by simp [writesRunning, hpc] at hno; simp [hno] at hsig) (.inl rfl)
    · exact h.keep rfl (fun _ => .inl rfl) (.inl rfl)
    · exact h.keep rfl (fun _ => .inr nofun) (.inl rfl)
    · exact h.keep rfl (fun _ => .inl rfl) (.inl rfl)
    · exact h.keep rfl (fun _ => .inl rfl) (.inl rfl)
  · rcases returnsStep_cases hret with ⟨-, rfl⟩ | ⟨r, -, -, rfl⟩ | ⟨r, -, -, rfl⟩
    · exact h.keep rfl (fun _ => .inl rfl) (.inl rfl)
    · exact h.keep rfl (fun _ => .inl rfl) (.inl rfl)
    · exact h.keep rfl (fun _ => .inl rfl) (.inl rfl)
  · exact h.keep rfl (fun _ => .inr nofun) (.inl rfl)
  · exact h.keep rfl (fun _ => .inl rfl) (.inr rfl)
  · exact h.keep rfl (fun _ => .inl rfl) (.inl rfl)
  · exact h.keep rfl (fun _ => .inl rfl) (.inl rfl)

variable {handlers : DaemonHandlers}

/-- **Stop is absorbing where `Running` is not written after it**: once a SIGINT or SIGTERM has been delivered, a poll
that begins afterwards does not return true. -/
theorem stop_absorbing {s : Daemon} (hs : ((machine handlers).only keepsStop).Reachable s)
    (hbegun : stopSignalled s.begun = true) : s.isRunningReturns ≠ some true := by
  have hinv : StopInv s := by
    refine hs.only_invariant ?_ (fun s a t hI hok hst => stopInv_step (s := s) hI hok hst)
    exact ⟨nofun, nofun⟩
  intro hret
  obtain ⟨-, hrun⟩ := isRunningReturns_eq_some hret
  exact hinv.stop (hinv.begun hbegun) (of_decide_eq_true hrun)

def mainHandlers : DaemonHandlers where
  beforeToStart := true
  beforeToExit  := true
  request _     := true

/-- A SIGTERM, and a SIGHUP inside the poll that follows, behind its test for a reload. -/
theorem stop_absorbing_sigterm : ∃ s : Daemon, stopSignalled s.begun = true ∧ s.isRunningReturns = some false ∧
    s.isRunningReturns ≠ some true := by
  obtain ⟨s, hrun⟩ : ∃ s, ((machine mainHandlers).only keepsStop).runFrom ((machine mainHandlers).only keepsStop).init
      [.startAll, .go, .returns true, .go, .signal .sigusr1, .isRunning, .go, .go, .go, .signal .sighup, .go,
       .returns true, .go, .go, .signal .sigterm, .isRunning, .go, .signal .sighup, .go, .go] = some s := ⟨_, rfl⟩
  have hb : stopSignalled s.begun = true := by cases hrun; rfl
  have hr : s.isRunningReturns = some false := by cases hrun; rfl
  exact ⟨s, hb, hr, stop_absorbing (Machine.reachable_of_run _ hrun) hb⟩

/-- **A stop signal can be lost**: a SIGTERM, and a SIGHUP before the next poll; the poll reloads and returns true. -/
theorem exists_lostStop : ¬ ∀ s, (machine mainHandlers).Reachable s → stopSignalled s.begun = true →
    s.isRunningReturns ≠ some true := by
  intro hall
  obtain ⟨s, hrun⟩ : ∃ s, (machine mainHandlers).runFrom (machine mainHandlers).init
      [.startAll, .go, .returns true, .go, .signal .sigterm, .signal .sighup, .isRunning, .go, .go, .go, .returns true]
      = some s := ⟨_, rfl⟩
  refine hall s (Machine.reachable_of_run _ hrun) ?_ ?_
  · cases hrun; rfl
  · cases hrun; rfl

/-! ## No stop without a stop request -/

/-- What has happened since the last `startAll` wrote `Running`. -/
def sinceStart (es : List DaemonEvent) : List DaemonEvent := es.takeWhile (fun e => e ≠ .startAll)

/-- A stop has been asked for since the last `startAll`. -/
def stopRequested (es : List DaemonEvent) : Bool :=
  (sinceStart es).any (fun e => match e with
    | .signal sig      => sig.request.isNone
    | .closeAll        => true
    | .setStop         => true
    | .handlerFailed _ => true
    | _                => false)

@[simp] theorem stopRequested_signal (sig : Signal) (es : List DaemonEvent) :
    stopRequested (.signal sig :: es) = (sig.request.isNone || stopRequested es) := rfl

/-- The poll in progress has its test for `r` behind it, and will not write the state before its final comparison. -/
def passed : DaemonPc → Request → Bool
  | .test .user1, .reload => true
  | .test .user2, .reload => true
  | .test .user2, .user1  => true
  | .call _, _            => true
  | .inHandler _, _       => true
  | .compare, _           => true
  | _, _                  => false

/-- **The steps after which no request is mistaken for a stop**: until a stop is asked for, none arrives in a poll
behind its own test. -/
def timely (s : Daemon) : DaemonAct → Bool
  | .signal sig => match sig.request with
                   | some r => stopRequested s.history || !passed s.pc r
                   | none   => true
  | _           => true

/-- **The invariant of the timely runs.** -/
structure ExitInv (s : Daemon) : Prop where
  stop   : s.state = .stop → stopRequested s.history = true
  failed : s.pc = .writeStop → stopRequested s.history = true
  start  : s.state = .start → DaemonEvent.startAll ∉ s.history
  begun  : DaemonEvent.startAll ∈ s.begun → DaemonEvent.startAll ∈ s.history
  passed : ∀ r, passed s.pc r = true → s.state = r.state → stopRequested s.history = true

theorem ExitInv.move {s : Daemon} (h : ExitInv s) {pc : DaemonPc} (hf : pc ≠ .writeStop)
    (hp : ∀ r, Daemon.passed pc r = true → s.state = r.state → stopRequested s.history = true) :
    ExitInv { s with pc := pc } :=
  ⟨h.stop, fun hpc => absurd hpc hf, h.start, h.begun, hp⟩

/-- Every state that is no request is behind every test. -/
theorem ne_state_of_request_eq_none {st : DaemonState} (h : st.request = none) (r : Request) : st ≠ r.state := by
  intro heq
  rw [DaemonState.request_eq_some.2 heq] at h
  cases h

theorem ExitInv.go {s t : Daemon} (h : ExitInv s) (hst : s.goStep = some t) : ExitInv t := by
  rcases goStep_cases hst with ⟨hpc, pc, rfl, hor⟩ | ⟨hpc, pc, rfl, hor⟩ | ⟨r, hpc, rfl⟩ | ⟨r, hpc, rfl⟩ |
    ⟨r, hpc, rfl⟩ | ⟨hpc, rfl⟩ | ⟨hpc, rfl⟩ | ⟨b, hpc, rfl⟩
  · refine ⟨nofun, fun hf => ?_, nofun, fun _ => List.mem_cons_self, fun _ _ heq =>
      absurd heq (ne_state_of_request_eq_none rfl _)⟩
    rcases hor with rfl | rfl <;> cases hf
  · exact ⟨fun _ => rfl, fun _ => rfl, nofun, fun hb => List.mem_cons_of_mem _ (h.begun hb), fun _ _ _ => rfl⟩
  · -- a test that fails puts its own request behind the poll as well
    have hpassed := h.passed
    rw [hpc] at hpassed
    by_cases heq : s.state = r.state
    · rw [if_pos heq]
      exact h.move nofun (fun _ hq => by cases hq)
    · rw [if_neg heq]
      refine h.move (by cases r <;> exact nofun) (fun q hq => ?_)
      by_cases hqr : q = r
      · rw [hqr]; exact fun hs => absurd hs heq
      · exact hpassed q (by cases r <;> cases q <;> first | rfl | exact absurd rfl hqr | cases hq)
  · refine ⟨nofun, fun hf => ?_, nofun, h.begun, fun _ _ heq => absurd heq (ne_state_of_request_eq_none rfl _)⟩
    have hf : (if s.handlers.request r then DaemonPc.call r else .compare) = .writeStop := hf
    split at hf <;> cases hf
  · have hpassed := h.passed
    rw [hpc] at hpassed
    exact ⟨h.stop, nofun, fun hs hm => h.start hs (by simpa using hm), fun hb => List.mem_cons_of_mem _ (h.begun hb),
      fun q _ => hpassed q rfl⟩
  · exact ⟨fun _ => h.failed hpc, nofun, nofun, h.begun, fun _ _ _ => h.failed hpc⟩
  · exact h.move nofun (fun _ hq => by cases hq)
  · exact h.move nofun (fun _ hq => by cases hq)

theorem exitInv_step {s t : Daemon} {a : DaemonAct} (h : ExitInv s) (hok : s.timely a = true)
    (hst : s.step a = some t) : ExitInv t := by
  rcases step_cases hst with ⟨sig, rfl, rfl⟩ | ⟨rfl, hgo⟩ | ⟨ok, rfl, hret⟩ | ⟨rfl, -, rfl⟩ | ⟨rfl, hpc, rfl⟩ |
    ⟨hpc, rfl | rfl⟩
  · cases hr : sig.request with
    | none =>
      have hstate := signalHandler_of_request_eq_none hr
      refine ⟨fun _ => by simp [hr], fun _ => by simp [hr], fun hs => ?_, fun hb => List.mem_cons_of_mem _ (h.begun hb),
        fun _ _ _ => by simp [hr]⟩
      rw [hstate] at hs; cases hs
    | some r =>
      obtain rfl := Signal.request_eq_some.1 hr
      simp only [timely, hr, Bool.or_eq_true, Bool.not_eq_true'] at hok
      refine ⟨fun hs => ?_, fun hf => ?_, fun hs => ?_, fun hb => List.mem_cons_of_mem _ (h.begun hb), fun q hq => ?_⟩
      · rw [signalHandler_signal] at hs; cases r <;> cases hs
      · have := h.failed hf; simp [this]
      · rw [signalHandler_signal] at hs; cases r <;> cases hs
      · -- the poll has not passed the test for `r` yet, or a stop was asked for before
        intro heq
        have hq : Daemon.passed s.pc q = true := hq
        have heq : signalHandler r.signal = q.state := heq
        rw [signalHandler_signal] at heq
        rw [Request.state_inj.1 heq, hq] at hok
        rcases hok with hstop | hno
        · simp [hstop]
        · cases hno
  · exact h.go hgo
  · rcases returnsStep_cases hret with ⟨-, rfl⟩ | ⟨r, hpc, -, rfl⟩ | ⟨r, -, -, rfl⟩
    · exact h.move nofun (fun _ hq => by cases hq)
    · have hpassed := h.passed
      rw [hpc] at hpassed
      exact h.move nofun (fun q _ => hpassed q rfl)
    · exact ⟨fun _ => rfl, fun _ => rfl, fun hs hm => h.start hs (by simpa using hm), fun hb =>
        List.mem_cons_of_mem _ (h.begun hb), fun _ hq => by cases hq⟩
  · exact ⟨fun _ => rfl, fun _ => rfl, nofun, fun hb => List.mem_cons_of_mem _ (h.begun hb), fun _ _ _ => rfl⟩
  · exact ⟨h.stop, nofun, h.start, fun hb => hb, fun _ hq => by cases hq⟩
  · exact h.move nofun (fun _ hq => by cases hq)
  · exact h.move nofun (fun _ hq => by cases hq)

/-- **A timely poll returns false only on a stop**: since `startAll`, a SIGINT or SIGTERM was delivered,
`setState(Stop)` or `closeAll` was called, or a request's handler returned false. -/
theorem stop_of_not_running {s : Daemon} (hs : ((machine handlers).only timely).Reachable s)
    (hstart : DaemonEvent.startAll ∈ s.begun) (hret : s.isRunningReturns = some false) :
    stopRequested s.history = true := by
  have hinv : ExitInv s := by
    refine hs.only_invariant ?_ (fun s a t hI hok hst => exitInv_step (s := s) hI hok hst)
    exact ⟨nofun, nofun, fun _ => List.not_mem_nil, fun h => absurd h List.not_mem_nil, fun _ hq => by cases hq⟩
  obtain ⟨hpc, hrun⟩ := isRunningReturns_eq_some hret
  have hpassed := hinv.passed
  rw [hpc] at hpassed
  cases hstate : s.state with
  | stop => exact hinv.stop hstate
  | start => exact absurd (hinv.begun hstart) (hinv.start hstate)
  | running => simp [hstate] at hrun
  | reload => exact hpassed .reload rfl hstate
  | user1 => exact hpassed .user1 rfl hstate
  | user2 => exact hpassed .user2 rfl hstate

theorem stop_of_not_running_failed : ∃ s : Daemon, s.isRunningReturns = some false ∧
    stopRequested s.history = true := by
  obtain ⟨s, hrun⟩ : ∃ s, ((machine mainHandlers).only timely).runFrom ((machine mainHandlers).only timely).init
      [.startAll, .go, .returns true, .go, .signal .sigusr2, .isRunning, .go, .go, .go, .signal .sighup, .go, .go,
       .returns false, .go] = some s := ⟨_, rfl⟩
  have hb : DaemonEvent.startAll ∈ s.begun := by cases hrun; decide
  have hr : s.isRunningReturns = some false := by cases hrun; rfl
  exact ⟨s, hr, stop_of_not_running (Machine.reachable_of_run _ hrun) hb hr⟩

/-- **A request can end the main loop**: a SIGHUP that lands between the poll's test for it and its final comparison. -/
theorem exists_spuriousStop : ¬ ∀ s, (machine mainHandlers).Reachable s → DaemonEvent.startAll ∈ s.begun →
    s.isRunningReturns = some false → stopRequested s.history = true := by
  intro hall
  obtain ⟨s, hrun⟩ : ∃ s, (machine mainHandlers).runFrom (machine mainHandlers).init
      [.startAll, .go, .returns true, .go, .isRunning, .go, .signal .sighup, .go, .go] = some s := ⟨_, rfl⟩
  have hb : DaemonEvent.startAll ∈ s.begun := by cases hrun; decide
  have hr : s.isRunningReturns = some false := by cases hrun; rfl
  have hn : stopRequested s.history = false := by cases hrun; rfl
  have := hall s (Machine.reachable_of_run _ hrun) hb hr
  rw [hn] at this
  cases this

/-! ## No request is lost -/

def requested (r : Request) (es : List DaemonEvent) : Bool := (sinceStart es).contains (.signal r.signal)

/-- The latest of `r`'s signals among the events has no handler call after it. -/
def noHandlerSince (r : Request) : List DaemonEvent → Bool
  | []                => false
  | .signal sig :: es => sig = r.signal || noHandlerSince r es
  | .handler q :: es  => q ≠ r && noHandlerSince r es
  | _ :: es           => noHandlerSince r es

/-- The request was asked for since the last `startAll`, and its handler not called since. -/
def unserved (r : Request) (es : List DaemonEvent) : Bool := noHandlerSince r (sinceStart es)

@[simp] theorem unserved_signal (r : Request) (sig : Signal) (es : List DaemonEvent) :
    unserved r (.signal sig :: es) = (sig = r.signal || unserved r es) := rfl

@[simp] theorem unserved_handler (r q : Request) (es : List DaemonEvent) :
    unserved r (.handler q :: es) = (q ≠ r && unserved r es) := rfl

@[simp] theorem unserved_startAll (r : Request) (es : List DaemonEvent) :
    unserved r (.startAll :: es) = false := rfl

/-- **The steps after which no request is lost**: none arrives while the state holds a request of another kind. -/
def distinct (s : Daemon) : DaemonAct → Bool
  | .signal sig => match sig.request, s.state.request with
                   | some r, some q => r = q
                   | _, _           => true
  | _           => true

/-- **The invariant of the distinct runs**: until a stop is requested, an unserved request is in the state, or its
handler is called next. -/
structure ServedInv (s : Daemon) : Prop where
  handlers : ∀ r, s.handlers.request r = true
  failed   : s.pc = .writeStop → stopRequested s.history = true
  pending  : stopRequested s.history = false → ∀ r, unserved r s.history = true → s.state = r.state ∨ s.pc = .call r
  write    : stopRequested s.history = false → ∀ r, s.pc = .write r → s.state = r.state

theorem ServedInv.of_stop {t : Daemon} (hh : ∀ r, t.handlers.request r = true)
    (hstop : stopRequested t.history = true) : ServedInv t :=
  ⟨hh, fun _ => hstop, fun hn => (by rw [hstop] at hn; cases hn), fun hn => (by rw [hstop] at hn; cases hn)⟩

theorem ServedInv.move {s : Daemon} (h : ServedInv s) {pc : DaemonPc} (hc : ∀ r, s.pc ≠ .call r)
    (hf : pc ≠ .writeStop) (hw : ∀ r, pc = .write r → s.state = r.state) : ServedInv { s with pc := pc } :=
  ⟨h.handlers, fun hpc => absurd hpc hf,
    fun hn r hu => .inl ((h.pending hn r hu).resolve_right (hc r)), fun _ r hpc => hw r hpc⟩

theorem ServedInv.go {s t : Daemon} (h : ServedInv s) (hst : s.goStep = some t) : ServedInv t := by
  rcases goStep_cases hst with ⟨hpc, pc, rfl, hor⟩ | ⟨hpc, pc, rfl, hor⟩ | ⟨r, hpc, rfl⟩ | ⟨r, hpc, rfl⟩ |
    ⟨r, hpc, rfl⟩ | ⟨hpc, rfl⟩ | ⟨hpc, rfl⟩ | ⟨b, hpc, rfl⟩
  · refine ⟨h.handlers, fun hf => ?_, fun _ r hu => ?_, fun _ r hw => ?_⟩
    · rcases hor with rfl | rfl <;> cases hf
    · simp at hu
    · rcases hor with rfl | rfl <;> cases hw
  · exact .of_stop h.handlers rfl
  · refine h.move (by rw [hpc]; exact nofun) ?_ (fun q hw => ?_)
    · split
      · exact nofun
      · cases r <;> exact nofun
    · split at hw
      · rename_i heq; cases hw; exact heq
      · cases r <;> cases hw
  · -- the state is the request of this branch: no other one is overwritten
    refine ⟨h.handlers, fun hf => ?_, fun hn q hu => .inr ?_, fun _ q hw => ?_⟩
    · have hf : (if s.handlers.request r then DaemonPc.call r else .compare) = .writeStop := hf
      split at hf <;> cases hf
    · have hstate := h.write hn r hpc
      have hq := (h.pending hn q hu).resolve_right (by rw [hpc]; exact nofun)
      rw [hstate] at hq
      rw [← Request.state_inj.1 hq]
      exact if_pos (h.handlers r)
    · have hw : (if s.handlers.request r then DaemonPc.call r else .compare) = .write q := hw
      split at hw <;> cases hw
  · refine ⟨h.handlers, nofun, fun hn q hu => .inl ?_, fun _ _ hw => by cases hw⟩
    simp only [unserved_handler, ne_eq, decide_not, Bool.and_eq_true, Bool.not_eq_true', decide_eq_false_iff_not] at hu
    refine (h.pending hn q hu.2).resolve_right (fun hc => hu.1 ?_)
    rw [hpc] at hc
    exact DaemonPc.call.inj hc
  · exact .of_stop h.handlers (h.failed hpc)
  · exact h.move (by rw [hpc]; exact nofun) nofun (fun _ hw => by cases hw)
  · exact h.move (by rw [hpc]; exact nofun) nofun (fun _ hw => by cases hw)

theorem ServedInv.signal {s : Daemon} (h : ServedInv s) {r : Request} (hd : s.distinct (.signal r.signal) = true) :
    ServedInv { s with state := r.state, history := .signal r.signal :: s.history } := by
  have hsame : ∀ q : Request, s.state = q.state → r = q := by
    intro q hq
    simpa [distinct, Signal.request_eq_some.2 rfl, DaemonState.request_eq_some.2 hq] using hd
  have hstop : ∀ {b}, stopRequested (.signal r.signal :: s.history) = b → stopRequested s.history = b := by
    intro b hb
    simpa [Signal.request_eq_some.2 rfl] using hb
  refine ⟨h.handlers, fun hf => ?_, fun hn q hu => ?_, fun hn q hw => ?_⟩
  · have := h.failed hf
    show stopRequested (.signal r.signal :: s.history) = true
    simp [this]
  · simp only [unserved_signal, Bool.or_eq_true, decide_eq_true_eq] at hu
    rcases hu with heq | hu
    · rw [Request.signal_inj.1 heq]; exact .inl rfl
    · rcases h.pending (hstop hn) q hu with hq | hq
      · rw [hsame q hq]; exact .inl rfl
      · exact .inr hq
  · rw [hsame q (h.write (hstop hn) q hw)]

theorem servedInv_step {s t : Daemon} {a : DaemonAct} (h : ServedInv s) (hok : s.distinct a = true)
    (hst : s.step a = some t) : ServedInv t := by
  rcases step_cases hst with ⟨sig, rfl, rfl⟩ | ⟨rfl, hgo⟩ | ⟨ok, rfl, hret⟩ | ⟨rfl, -, rfl⟩ | ⟨rfl, hpc, rfl⟩ |
    ⟨hpc, rfl | rfl⟩
  · cases hr : sig.request with
    | none => exact .of_stop h.handlers (by simp [hr])
    | some r =>
      obtain rfl := Signal.request_eq_some.1 hr
      rw [signalHandler_signal]
      exact h.signal hok
  · exact h.go hgo
  · rcases returnsStep_cases hret with ⟨hpc, rfl⟩ | ⟨r, hpc, -, rfl⟩ | ⟨r, -, -, rfl⟩
    · refine h.move (fun r => ?_) nofun (fun _ hw => by cases hw)
      rcases hpc with hpc | hpc <;> (rw [hpc]; exact nofun)
    · exact h.move (by rw [hpc]; exact nofun) nofun (fun _ hw => by cases hw)
    · exact .of_stop h.handlers rfl
  · exact .of_stop h.handlers rfl
  · have hm : ServedInv { s with pc := .test .reload } :=
      h.move (by rw [hpc]; exact nofun) nofun (fun _ hw => by cases hw)
    exact ⟨hm.handlers, hm.failed, hm.pending, hm.write⟩
  · exact h.move (by rw [hpc]; exact nofun) nofun (fun _ hw => by cases hw)
  · exact h.move (by rw [hpc]; exact nofun) nofun (fun _ hw => by cases hw)

/-- **No request is lost in a distinct run**: with all handlers set and no stop requested since `startAll`, a poll that
returns true has had every request served that was asked for before it began. -/
theorem served_of_running {s : Daemon} (hs : ((machine handlers).only distinct).Reachable s)
    (hall : ∀ r, handlers.request r = true) (hstop : stopRequested s.history = false)
    (hret : s.isRunningReturns = some true) (r : Request) (hreq : requested r s.begun = true) :
    unserved r s.history = false := by
  have hinv : ServedInv s := by
    refine hs.only_invariant ?_ (fun s a t hI hok hst => servedInv_step (s := s) hI hok hst)
    exact ⟨hall, nofun, fun _ _ hu => (by cases hu), fun _ _ hw => (by cases hw)⟩
  obtain ⟨hpc, hrun⟩ := isRunningReturns_eq_some hret
  cases hu : unserved r s.history with
  | false => rfl
  | true =>
    rcases hinv.pending hstop r hu with hstate | hcall
    · rw [hstate] at hrun; cases r <;> cases hrun
    · rw [hpc] at hcall; cases hcall

theorem served_of_running_twice : ∃ s : Daemon, requested .reload s.begun = true ∧ s.isRunningReturns = some true ∧
    unserved .reload s.history = false := by
  obtain ⟨s, hrun⟩ : ∃ s, ((machine mainHandlers).only distinct).runFrom ((machine mainHandlers).only distinct).init
      [.startAll, .go, .returns true, .go, .signal .sighup, .signal .sighup, .isRunning, .go, .go, .go, .returns true]
      = some s := ⟨_, rfl⟩
  have hstop : stopRequested s.history = false := by cases hrun; rfl
  have hret : s.isRunningReturns = some true := by cases hrun; rfl
  have hreq : requested .reload s.begun = true := by cases hrun; decide
  exact ⟨s, hreq, hret,
    served_of_running (Machine.reachable_of_run _ hrun) (fun _ => rfl) hstop hret .reload hreq⟩

/-- **A request can be lost**: a SIGHUP, and a SIGUSR1 before the next poll; the poll serves the latter only. -/
theorem exists_lostRequest : ¬ ∀ s, (machine mainHandlers).Reachable s → DaemonEvent.startAll ∈ s.begun →
    stopRequested s.history = false → s.isRunningReturns = some true →
    ∀ r, requested r s.begun = true → unserved r s.history = false := by
  intro hall
  obtain ⟨s, hrun⟩ : ∃ s, (machine mainHandlers).runFrom (machine mainHandlers).init
      [.startAll, .go, .returns true, .go, .signal .sighup, .signal .sigusr1, .isRunning, .go, .go, .go, .go,
       .returns true] = some s := ⟨_, rfl⟩
  have hb : DaemonEvent.startAll ∈ s.begun := by cases hrun; decide
  have hstop : stopRequested s.history = false := by cases hrun; rfl
  have hret : s.isRunningReturns = some true := by cases hrun; rfl
  have hreq : requested .reload s.begun = true := by cases hrun; decide
  have hu : unserved .reload s.history = true := by cases hrun; rfl
  have := hall s (Machine.reachable_of_run _ hrun) hb hstop hret .reload hreq
  rw [hu] at this
  cases this

/-! ## No handler call without a signal -/

/-- The poll is about to call `r`'s handler. -/
def calling (pc : DaemonPc) (r : Request) : Nat := if pc = .call r then 1 else 0

/-- The request is in the state, or the poll is about to clear it. -/
def held (pc : DaemonPc) (st : DaemonState) (r : Request) : Nat := if pc = .write r ∨ st = r.state then 1 else 0

/-- The calls of `r`'s handler that are still to come without another signal. -/
def owed (s : Daemon) (r : Request) : Nat := calling s.pc r + held s.pc s.state r

theorem signalHandler_eq_state {sig : Signal} {r : Request} : signalHandler sig = r.state ↔ sig = r.signal := by
  cases sig <;> cases r <;> simp [signalHandler, Request.state, Request.signal]

/-- **The signals pay for the calls**, from the one state to the other. -/
def PaidFor (s t : Daemon) : Prop :=
  ∃ es, t.history = es ++ s.history ∧
    ∀ r, es.count (.handler r) + owed t r ≤ es.count (.signal r.signal) + owed s r

theorem PaidFor.trans {s t u : Daemon} (h : PaidFor s t) (h' : PaidFor t u) : PaidFor s u := by
  obtain ⟨es, hes, hpaid⟩ := h
  obtain ⟨fs, hfs, hpaid'⟩ := h'
  refine ⟨fs ++ es, by rw [hfs, hes, List.append_assoc], fun r => ?_⟩
  have h₁ := hpaid r
  have h₂ := hpaid' r
  rw [List.count_append, List.count_append]
  omega

theorem PaidFor.same {s t : Daemon} (hh : t.history = s.history) (h : ∀ r, owed t r ≤ owed s r) : PaidFor s t :=
  ⟨[], hh, fun r => Nat.add_le_add_left (h r) 0⟩

theorem PaidFor.event {s t : Daemon} {e : DaemonEvent} (hh : t.history = e :: s.history)
    (he : ∀ r, e ≠ .handler r) (h : ∀ r, owed t r ≤ owed s r) : PaidFor s t := by
  refine ⟨[e], hh, fun r => ?_⟩
  rw [List.count_eq_zero.2 (fun hm => he r (List.mem_singleton.1 hm).symm)]
  have := h r
  omega

theorem owed_le {s t : Daemon} {r : Request} (hc : t.pc = .call r → s.pc = .call r)
    (hw : t.pc = .write r ∨ t.state = r.state → s.pc = .write r ∨ s.state = r.state) : owed t r ≤ owed s r := by
  have hcall : calling t.pc r ≤ calling s.pc r := by
    unfold calling
    split
    · rename_i ht; exact Nat.le_of_eq (if_pos (hc ht)).symm
    · exact Nat.zero_le _
  have hheld : held t.pc t.state r ≤ held s.pc s.state r := by
    unfold held
    split
    · rename_i ht; exact Nat.le_of_eq (if_pos (hw ht)).symm
    · exact Nat.zero_le _
  exact Nat.add_le_add hcall hheld

/-- A move that leaves the state, or puts no request into it. -/
theorem owed_le_of_pc {s t : Daemon} (hc : ∀ r, t.pc ≠ .call r) (hw : ∀ r, t.pc ≠ .write r)
    (hs : t.state = s.state ∨ t.state.request = none) (r : Request) : owed t r ≤ owed s r := by
  refine owed_le (fun ht => absurd ht (hc r)) (fun ht => .inr ?_)
  have ht := ht.resolve_left (hw r)
  rcases hs with hs | hs
  · rw [← hs]; exact ht
  · exact absurd ht (ne_state_of_request_eq_none hs r)

/-- The first write of a perform function: what was to be cleared is to be called, if there is a handler, and
anything else in the state is lost. -/
theorem owed_performIfRequired {s : Daemon} {r : Request} (hpc : s.pc = .write r) (q : Request) :
    owed (s.performIfRequired r) q ≤ owed s q := by
  have hpc' : (s.performIfRequired r).pc = .call r ∨ (s.performIfRequired r).pc = .compare := by
    show (if s.handlers.request r then DaemonPc.call r else .compare) = _ ∨
      (if s.handlers.request r then DaemonPc.call r else .compare) = _
    split
    · exact .inl rfl
    · exact .inr rfl
  have hheld : held (s.performIfRequired r).pc .running q = 0 := by
    refine if_neg (fun hw => ?_)
    rcases hw with hw | hw
    · rcases hpc' with hc | hc <;> (rw [hc] at hw; cases hw)
    · exact ne_state_of_request_eq_none rfl q hw
  have hcall : calling (s.performIfRequired r).pc q ≤ held s.pc s.state q := by
    unfold calling
    split
    · rename_i hc
      rcases hpc' with hr | hr
      · rw [hr] at hc
        cases hc
        rw [hpc]
        exact Nat.le_of_eq (if_pos (.inl rfl)).symm
      · rw [hr] at hc
        cases hc
    · exact Nat.zero_le _
  show calling (s.performIfRequired r).pc q + held (s.performIfRequired r).pc .running q ≤
    calling s.pc q + held s.pc s.state q
  omega

theorem PaidFor.call {s t : Daemon} {r : Request} (hpc : s.pc = .call r) (hpc' : t.pc = .inHandler r)
    (hs : t.state = s.state) (hh : t.history = .handler r :: s.history) : PaidFor s t := by
  refine ⟨[.handler r], hh, fun q => ?_⟩
  have hcall : [DaemonEvent.handler r].count (.handler q) ≤ calling s.pc q := by
    rw [List.count_singleton, hpc]
    unfold calling
    by_cases hq : r = q
    · rw [hq, if_pos rfl]
      exact Nat.le_of_eq (if_pos (beq_self_eq_true _))
    · rw [if_neg (fun hb => hq (DaemonEvent.handler.inj (eq_of_beq hb)))]
      exact Nat.zero_le _
  have howed : owed t q = held s.pc s.state q := by
    unfold owed held
    rw [hpc', hpc, hs]
    simp only [calling, reduceCtorEq, if_false, false_or, Nat.zero_add]
  unfold owed at *
  omega

theorem PaidFor.go {s t : Daemon} (hst : s.goStep = some t) : PaidFor s t := by
  rcases goStep_cases hst with ⟨hpc, pc, rfl, hor⟩ | ⟨hpc, pc, rfl, hor⟩ | ⟨r, hpc, rfl⟩ | ⟨r, hpc, rfl⟩ |
    ⟨r, hpc, rfl⟩ | ⟨hpc, rfl⟩ | ⟨hpc, rfl⟩ | ⟨b, hpc, rfl⟩
  · refine .event rfl (fun _ he => by cases he) (owed_le_of_pc (fun r hc => ?_) (fun r hw => ?_) (.inr rfl))
    · rcases hor with rfl | rfl <;> cases hc
    · rcases hor with rfl | rfl <;> cases hw
  · refine .event rfl (fun _ he => by cases he) (owed_le_of_pc (fun r hc => ?_) (fun r hw => ?_) (.inr rfl))
    · rcases hor with rfl | rfl <;> cases hc
    · rcases hor with rfl | rfl <;> cases hw
  · -- the request found in the state is the one about to be cleared
    refine .same rfl (fun q => owed_le (fun hc => ?_) (fun hw => .inr ?_))
    · have hc : (if s.state = r.state then DaemonPc.write r else nextTest r) = .call q := hc
      split at hc
      · cases hc
      · cases r <;> cases hc
    · rcases hw with hw | hw
      · have hw : (if s.state = r.state then DaemonPc.write r else nextTest r) = .write q := hw
        split at hw
        · rename_i heq; cases hw; exact heq
        · cases r <;> cases hw
      · exact hw
  · exact .same rfl (owed_performIfRequired hpc)
  · exact .call hpc rfl rfl rfl
  · exact .same rfl (owed_le_of_pc (fun _ hc => by cases hc) (fun _ hw => by cases hw) (.inr rfl))
  · exact .same rfl (owed_le_of_pc (fun _ hc => by cases hc) (fun _ hw => by cases hw) (.inl rfl))
  · exact .same rfl (owed_le_of_pc (fun _ hc => by cases hc) (fun _ hw => by cases hw) (.inl rfl))

/-- A signal puts its own request into the state, and takes any other out of it. -/
theorem PaidFor.signal (s : Daemon) (sig : Signal) :
    PaidFor s { s with state := signalHandler sig, history := .signal sig :: s.history } := by
  refine ⟨[.signal sig], rfl, fun r => ?_⟩
  rw [List.count_eq_zero.2 (fun hm => by cases List.mem_singleton.1 hm), Nat.zero_add]
  show calling s.pc r + held s.pc (signalHandler sig) r ≤ _ + (calling s.pc r + held s.pc s.state r)
  by_cases hsig : sig = r.signal
  · rw [hsig, List.count_singleton_self]
    have hone : held s.pc (signalHandler r.signal) r ≤ 1 := by
      unfold held
      split <;> omega
    omega
  · have hle : owed { s with state := signalHandler sig } r ≤ owed s r :=
      owed_le id (fun ht => .inl (ht.resolve_right (fun hs => hsig (signalHandler_eq_state.1 hs))))
    exact Nat.le_trans hle (Nat.le_add_left _ _)

theorem paidFor_step {s t : Daemon} {a : DaemonAct} (hst : s.step a = some t) : PaidFor s t := by
  rcases step_cases hst with ⟨sig, rfl, rfl⟩ | ⟨rfl, hgo⟩ | ⟨ok, rfl, hret⟩ | ⟨rfl, hpc, rfl⟩ | ⟨rfl, hpc, rfl⟩ |
    ⟨hpc, rfl | rfl⟩
  · exact .signal s sig
  · exact .go hgo
  · rcases returnsStep_cases hret with ⟨-, rfl⟩ | ⟨r, -, -, rfl⟩ | ⟨r, -, -, rfl⟩
    · exact .same rfl (owed_le_of_pc (fun _ hc => by cases hc) (fun _ hw => by cases hw) (.inl rfl))
    · exact .same rfl (owed_le_of_pc (fun _ hc => by cases hc) (fun _ hw => by cases hw) (.inl rfl))
    · exact .event rfl (fun _ he => by cases he)
        (owed_le_of_pc (fun _ hc => by cases hc) (fun _ hw => by cases hw) (.inl rfl))
  · refine .event rfl (fun _ he => by cases he) (owed_le_of_pc (fun r hc => ?_) (fun r hw => ?_) (.inr rfl))
    · have hc : s.pc = .call r := hc
      rcases hpc with hpc | ⟨q, hpc⟩ <;> (rw [hpc] at hc; cases hc)
    · have hw : s.pc = .write r := hw
      rcases hpc with hpc | ⟨q, hpc⟩ <;> (rw [hpc] at hw; cases hw)
  · exact .same rfl (owed_le_of_pc (fun _ hc => by cases hc) (fun _ hw => by cases hw) (.inl rfl))
  · exact .same rfl (owed_le_of_pc (fun _ hc => by cases hc) (fun _ hw => by cases hw) (.inl rfl))
  · exact .same rfl (owed_le_of_pc (fun _ hc => by cases hc) (fun _ hw => by cases hw) (.inl rfl))

theorem reachable_paidFor {s : Daemon} (hs : (machine handlers).Reachable s) : PaidFor (init handlers) s :=
  hs.invariant (I := PaidFor (init handlers)) (.same rfl (fun _ => Nat.le_refl _))
    (fun _ _ _ hI hst => hI.trans (paidFor_step hst))

/-- **A handler is called at most once for each signal of its own**, whenever the signals land: over the whole run no
more often than the signal was delivered, and in any stretch of the run (the events `es`) no more often than that and
what was owed when the stretch began.  `reloadAll` and `setState(Reload)`, which would put a request into the state
without a signal, are called nowhere and are no steps here. -/
theorem calls_le_signals {s t : Daemon} (hs : (machine handlers).Reachable s) (as : List DaemonAct)
    (hrun : (machine handlers).runFrom s as = some t) (r : Request) :
    t.history.count (.handler r) ≤ t.history.count (.signal r.signal) ∧
    ∃ es, t.history = es ++ s.history ∧
      es.count (.handler r) + owed t r ≤ es.count (.signal r.signal) + owed s r := by
  refine ⟨?_, ?_⟩
  · obtain ⟨es, hes, hpaid⟩ := reachable_paidFor (hs.runFrom as hrun)
    have hes : t.history = es := by rw [hes]; exact List.append_nil es
    have hnone : owed (init handlers) r = 0 := by cases r <;> rfl
    have := hpaid r
    rw [hes]
    omega
  · have hpaid : PaidFor s t := Machine.runFrom_invariant (I := PaidFor s)
      (fun _ _ _ hI hst => hI.trans (paidFor_step hst)) as (.same rfl (fun _ => Nat.le_refl _)) hrun
    obtain ⟨es, hes, hpaid⟩ := hpaid
    exact ⟨es, hes, hpaid r⟩

/-- Two SIGHUPs, the second between the poll's first write and its call: the two calls still to come are owed. -/
theorem calls_le_signals_owed : ∃ s t : Daemon, owed s .reload = 2 ∧ t.history.count (.handler .reload) = 2 ∧
    t.history.count (.handler .reload) ≤ t.history.count (.signal .sighup) := by
  obtain ⟨s, hs⟩ : ∃ s, (machine mainHandlers).runFrom (machine mainHandlers).init
      [.startAll, .go, .returns true, .go, .signal .sighup, .isRunning, .go, .go, .signal .sighup] = some s := ⟨_, rfl⟩
  obtain ⟨t, hrun⟩ : ∃ t, (machine mainHandlers).runFrom s [.go, .returns true, .go, .go, .isRunning, .go, .go, .go]
      = some t := by cases hs; exact ⟨_, rfl⟩
  have howed : owed s .reload = 2 := by cases hs; rfl
  have htwo : t.history.count (.handler .reload) = 2 := by cases hs; cases hrun; rfl
  exact ⟨s, t, howed, htwo, (calls_le_signals (Machine.reachable_of_run _ hs) _ hrun .reload).1⟩

end Daemon
end ThreadMessaging

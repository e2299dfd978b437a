import Mathlib.Logic.Function.Basic
import ThreadMessaging.Machine
/-!
# `workerBase`: one controller, the threads it starts, and their stop sources

The controlling thread calls `start`, `stop`, `join` and `stopAndWait`; each thread it creates evaluates
`externalToken.stop_possible()`, links its own and the external source to a combined one by two stop callbacks, runs,
destroys the callbacks, marks the worker stopped and exits.  Anybody may request a stop on an external source.

`request_stop` sets its flag first and then executes the registered callbacks one by one; `requesting` says that a call
is still at that.  A `stop_callback` constructed after the flag is set executes at once, and its destructor waits for an
execution in progress.
-/
namespace ThreadMessaging

/-- Whether a stop has been requested, and whether that `request_stop` is still executing callbacks. -/
inductive StopState
  | unrequested
  | executing
  | requested
  deriving DecidableEq, Repr

/-- The stop state behind the tokens of a source; `alive` while some `stop_source` object is left. -/
structure StopSource where
  state : StopState := .unrequested
  alive : Bool := true
  deriving DecidableEq, Repr

namespace StopSource

def requested (src : StopSource) : Bool := src.state ≠ .unrequested

/-- A `request_stop` on the source has not returned. -/
def requesting (src : StopSource) : Bool := src.state = .executing

/-- `stop_source::request_stop`, up to its first callback. -/
def requestStop (src : StopSource) : StopSource :=
  match src.state with
  | .unrequested => { src with state := .executing }
  | _            => src

def requestReturns (src : StopSource) : StopSource :=
  match src.state with
  | .executing => { src with state := .requested }
  | _          => src

def stopPossible (src : StopSource) : Bool := src.requested || src.alive

theorem requested_of_requesting {src : StopSource} (h : src.requesting = true) : src.requested = true := by
  simp only [requesting, decide_eq_true_eq] at h
  simp [requested, h]

@[simp] theorem requested_requestStop (src : StopSource) : src.requestStop.requested = true := by
  cases src with
  | mk state alive => cases state <;> rfl

theorem requesting_requestStop {src : StopSource} (h : src.requested = true → src.requesting = true) :
    src.requestStop.requesting = true := by
  cases src with
  | mk state alive => cases state <;> first | rfl | exact h rfl

@[simp] theorem requested_requestReturns (src : StopSource) : src.requestReturns.requested = src.requested := by
  cases src with
  | mk state alive => cases state <;> rfl

@[simp] theorem alive_requestReturns (src : StopSource) : src.requestReturns.alive = src.alive := by
  cases src with
  | mk state alive => cases state <;> rfl

end StopSource

inductive StopCallback
  | absent
  | registered
  | executing
  | done
  | destroyed
  deriving DecidableEq, Repr

/-- Constructing a `stop_callback`: it executes at once if a stop has been requested. -/
def StopCallback.construct (src : StopSource) : StopCallback := if src.requested then .done else .registered

/-- A `request_stop` has still to execute the callback, or is executing it. -/
def StopCallback.open : StopCallback → Bool
  | .registered => true
  | .executing  => true
  | _           => false

def StopCallback.set : StopCallback → Bool
  | .absent    => false
  | .destroyed => false
  | _          => true

/-- The two callbacks of a thread: on its own source and on the external one. -/
inductive Link
  | internal
  | external
  deriving DecidableEq, Repr

inductive SourceId
  | own (i : Nat)
  | external (e : Nat)
  deriving DecidableEq, Repr

inductive ThreadPc
  | unborn
  | created
  | register (l : Link)
  | run
  | unregister (l : Link)
  | mark
  | exit
  | exited
  deriving DecidableEq, Repr

/-- From the thread's creation to `markStopped`. -/
def ThreadPc.live : ThreadPc → Bool
  | .unborn => false
  | .exit   => false
  | .exited => false
  | _       => true

structure WorkerThread where
  pc       : ThreadPc := .unborn
  /-- The external token passed to `start`; `none` is the empty one. -/
  token    : Option Nat := none
  /-- Whether a stop has been requested on `combined`; `none` where the thread has none. -/
  combined : Option Bool := none
  callback : Link → StopCallback := fun _ => .absent

/-- The source the callback behind a link is registered on, for thread `i`. -/
def WorkerThread.linkSource (th : WorkerThread) (i : Nat) : Link → Option SourceId
  | .internal => some (.own i)
  | .external => th.token.map .external

/-- What the `start` in progress found, and what it began with. -/
structure StartCall where
  external   : Option Nat := none
  running    : Bool := false
  thread     : Option Nat := none
  joinable   : Bool := false
  ready      : Bool := false
  sawRunning : Bool := false
  created    : Bool := false
  /-- A thread has marked the worker stopped since. -/
  ended      : Bool := false

/-- Where the controller stands; the move assignment to `m_thread` stops and joins the thread it holds first. -/
inductive ControllerPc
  | idle
  | ready
  | compareExchange
  | create
  | createFailed
  | stopOld
  | callbacksOld
  | joinOld
  | move
  | startReturn (ok : Bool)
  | request (wait : Bool)
  | callbacks (wait : Bool)
  | stopped
  | join
  | joined
  deriving DecidableEq, Repr

/-- The new thread exists and `m_thread` is not yet it. -/
def ControllerPc.assigning : ControllerPc → Bool
  | .stopOld      => true
  | .callbacksOld => true
  | .joinOld      => true
  | .move         => true
  | _             => false

def ControllerPc.starting : ControllerPc → Bool
  | .idle        => false
  | .request _   => false
  | .callbacks _ => false
  | .stopped     => false
  | .join        => false
  | .joined      => false
  | _            => true

/-- `m_running` is set and the thread it is set for does not exist. -/
def ControllerPc.creating : ControllerPc → Bool
  | .create       => true
  | .createFailed => true
  | _             => false

structure Worker where
  running  : Bool
  /-- The thread of `m_thread`, whose stop source it keeps after a `join`. -/
  thread   : Option Nat
  joinable : Bool
  born     : Nat
  threads  : Nat → WorkerThread
  sources  : SourceId → StopSource
  ctl      : ControllerPc
  call     : StartCall

/-- What can happen next: a call by the controller, a step of the call (`go`, with the outcome of `isReadyToStart` and
of the thread creation where there is one), a step of a thread, the execution of a callback, a request on an external
source and its return, the end of its last `stop_source`. -/
inductive WorkerAct
  | start (external : Option Nat)
  | stop
  | stopAndWait
  | join
  | ready (ok : Bool)
  | create (ok : Bool)
  | go
  | thread (i : Nat)
  | take (i : Nat) (l : Link)
  | execute (i : Nat) (l : Link)
  | requestStop (e : Nat)
  | requestReturns (e : Nat)
  | release (e : Nat)
  deriving DecidableEq, Repr

namespace Worker

def init : Worker where
  running  := false
  thread   := none
  joinable := false
  born     := 0
  threads  := fun _ => {}
  sources  := fun _ => {}
  ctl      := .idle
  call     := {}

def setThread (s : Worker) (i : Nat) (th : WorkerThread) : Worker :=
  { s with threads := Function.update s.threads i th }

def setSource (s : Worker) (k : SourceId) (src : StopSource) : Worker :=
  { s with sources := Function.update s.sources k src }

/-- No callback is left that a `request_stop` on the source has to execute. -/
def callbacksDone (s : Worker) (k : SourceId) : Prop :=
  ∀ i < s.born, ((s.threads i).linkSource i .internal = some k → ((s.threads i).callback .internal).open = false) ∧
    ((s.threads i).linkSource i .external = some k → ((s.threads i).callback .external).open = false)

instance (s : Worker) (k : SourceId) : Decidable (s.callbacksDone k) := by
  unfold callbacksDone; infer_instance

/-- The token `run` is given has stop requested. -/
def tokenStopped (s : Worker) (i : Nat) : Bool :=
  match (s.threads i).combined with
  | some c => c
  | none   => (s.sources (.own i)).requested

def requestOwn (s : Worker) : Worker :=
  match s.thread with
  | some t => s.setSource (.own t) (s.sources (.own t)).requestStop
  | none   => s

def requestOwnReturns (s : Worker) : Option Worker :=
  match s.thread with
  | some t => if s.callbacksDone (.own t) then
                some (s.setSource (.own t) (s.sources (.own t)).requestReturns)
              else none
  | none   => none

def joinOwn (s : Worker) : Option Worker :=
  match s.thread with
  | some t => if (s.threads t).pc = .exited then some { s with joinable := false } else none
  | none   => none

def goStep (s : Worker) : Option Worker :=
  match s.ctl with
  | .compareExchange =>
    if s.running then some { s with ctl := .startReturn false, call := { s.call with sawRunning := true } }
    else some { s with running := true, ctl := .create }
  | .createFailed    => some { s with running := false, ctl := .startReturn false }
  | .stopOld         => if s.joinable then some { s.requestOwn with ctl := .callbacksOld }
                        else some { s with ctl := .move }
  | .callbacksOld    => s.requestOwnReturns.map (fun t => { t with ctl := .joinOld })
  | .joinOld         => s.joinOwn.map (fun t => { t with ctl := .move })
  | .move            => some { s with thread := some (s.born - 1), joinable := true, ctl := .startReturn true }
  | .startReturn _   => some { s with ctl := .idle }
  | .request wait    => if s.joinable then some { s.requestOwn with ctl := .callbacks wait }
                        else some { s with ctl := if wait then .join else .stopped }
  | .callbacks wait  => s.requestOwnReturns.map (fun t => { t with ctl := if wait then .join else .stopped })
  | .stopped         => some { s with ctl := .idle }
  | .join            => if s.joinable then s.joinOwn.map (fun t => { t with ctl := .joined })
                        else some { s with ctl := .joined }
  | .joined          => some { s with ctl := .idle }
  | _                => none

/-- The callbacks are constructed in this order, and destroyed in the other. -/
def afterConstruct : Link → ThreadPc
  | .internal => .register .external
  | .external => .run

def afterDestroy : Link → ThreadPc
  | .external => .unregister .internal
  | .internal => .mark

def threadStep (s : Worker) (i : Nat) : Option Worker :=
  let th := s.threads i
  match th.pc with
  | .created =>
    match th.token with
    | some e => if (s.sources (.external e)).stopPossible then
                  some (s.setThread i { th with pc := .register .internal, combined := some false })
                else some (s.setThread i { th with pc := .run })
    | none   => some (s.setThread i { th with pc := .run })
  | .register l =>
    match th.linkSource i l with
    | some k =>
      let cb := StopCallback.construct (s.sources k)
      some (s.setThread i { th with
        pc       := afterConstruct l
        combined := if cb = .done then some true else th.combined
        callback := Function.update th.callback l cb })
    | none   => none
  | .run => some (s.setThread i { th with pc := if th.combined.isSome then .unregister .external else .mark })
  | .unregister l =>
    if th.callback l = .executing then none
    else some (s.setThread i { th with
      pc       := afterDestroy l
      callback := Function.update th.callback l .destroyed })
  | .mark => some { s.setThread i { th with pc := .exit } with running := false, call := { s.call with ended := true } }
  | .exit => some (s.setThread i { th with pc := .exited })
  | _     => none

def step (s : Worker) : WorkerAct → Option Worker
  | .start e =>
    match s.ctl with
    | .idle => some { s with ctl := .ready, call := { external := e, running := s.running, thread := s.thread,
                                                       joinable := s.joinable } }
    | _     => none
  | .stop => match s.ctl with
             | .idle => some { s with ctl := .request false }
             | _     => none
  | .stopAndWait => match s.ctl with
                    | .idle => some { s with ctl := .request true }
                    | _     => none
  | .join => match s.ctl with
             | .idle => some { s with ctl := .join }
             | _     => none
  | .ready ok =>
    match s.ctl with
    | .ready => if ok then some { s with ctl := .compareExchange, call := { s.call with ready := true } }
                else some { s with ctl := .startReturn false }
    | _      => none
  | .create ok =>
    match s.ctl with
    | .create => if ok then some { s.setThread s.born { pc := .created, token := s.call.external } with
                                     born := s.born + 1, ctl := .stopOld, call := { s.call with created := true } }
                 else some { s with ctl := .createFailed }
    | _       => none
  | .go => s.goStep
  | .thread i => s.threadStep i
  | .take i l =>
    match (s.threads i).linkSource i l, (s.threads i).callback l with
    | some k, .registered => if (s.sources k).requesting then
                               some (s.setThread i { s.threads i with
                                 callback := Function.update (s.threads i).callback l .executing })
                             else none
    | _, _ => none
  | .execute i l =>
    match (s.threads i).callback l with
    | .executing => some (s.setThread i { s.threads i with
                      combined := some true, callback := Function.update (s.threads i).callback l .done })
    | _          => none
  | .requestStop e =>
    if (s.sources (.external e)).alive then
      some (s.setSource (.external e) (s.sources (.external e)).requestStop)
    else none
  | .requestReturns e =>
    if s.callbacksDone (.external e) then
      some (s.setSource (.external e) (s.sources (.external e)).requestReturns)
    else none
  | .release e =>
    if (s.sources (.external e)).requesting then none
    else some (s.setSource (.external e) { s.sources (.external e) with alive := false })

def machine : Machine Worker WorkerAct where
  init := init
  step := step

/-! ## What a step does to the threads and their sources -/

theorem requestOwn_frame (s : Worker) : s.requestOwn.running = s.running ∧ s.requestOwn.thread = s.thread ∧
    s.requestOwn.joinable = s.joinable ∧ s.requestOwn.born = s.born ∧ s.requestOwn.threads = s.threads ∧
    s.requestOwn.call = s.call := by
  unfold requestOwn
  split <;> exact ⟨rfl, rfl, rfl, rfl, rfl, rfl⟩

theorem requestOwn_requested {s : Worker} {t : Nat} (hth : s.thread = some t) (k : SourceId) :
    (s.requestOwn.sources k).requested = (if k = .own t then true else (s.sources k).requested) := by
  unfold requestOwn
  rw [hth]
  show (Function.update s.sources (.own t) _ k).requested = _
  split
  · rename_i hk
    rw [hk, Function.update_self, StopSource.requested_requestStop]
  · rename_i hk
    rw [Function.update_of_ne hk]

theorem requestOwnReturns_frame {s t : Worker} (h : s.requestOwnReturns = some t) : t.running = s.running ∧
    t.thread = s.thread ∧ t.joinable = s.joinable ∧ t.born = s.born ∧ t.threads = s.threads ∧ t.call = s.call := by
  unfold requestOwnReturns at h
  split at h
  · split at h
    · cases h; exact ⟨rfl, rfl, rfl, rfl, rfl, rfl⟩
    · cases h
  · cases h

theorem joinOwn_frame {s t : Worker} (hst : s.joinOwn = some t) :
    t.born = s.born ∧ t.threads = s.threads ∧ t.sources = s.sources := by
  unfold joinOwn at hst
  split at hst
  · split at hst
    · cases hst; exact ⟨rfl, rfl, rfl⟩
    · cases hst
  · cases hst

/-- **A step of the controller moves no thread**; at most it requests a stop on a thread's own source, or returns from
that. -/
theorem goStep_frame {s t : Worker} (hst : s.goStep = some t) : t.born = s.born ∧ t.threads = s.threads ∧
    (t.sources = s.sources ∨ (s.joinable = true ∧ t.sources = s.requestOwn.sources) ∨
      ∃ u, s.requestOwnReturns = some u ∧ t.sources = u.sources) := by
  have hown : s.joinable = true → ∀ {c}, t = { s.requestOwn with ctl := c } → t.born = s.born ∧
      t.threads = s.threads ∧ (t.sources = s.sources ∨ (s.joinable = true ∧ t.sources = s.requestOwn.sources) ∨
        ∃ u, s.requestOwnReturns = some u ∧ t.sources = u.sources) := by
    intro hj c ht
    obtain ⟨-, -, -, hb, hthr, -⟩ := s.requestOwn_frame
    subst ht
    exact ⟨hb, hthr, .inr (.inl ⟨hj, rfl⟩)⟩
  unfold goStep at hst
  split at hst
  · split at hst <;> (cases hst; exact ⟨rfl, rfl, .inl rfl⟩)
  · cases hst; exact ⟨rfl, rfl, .inl rfl⟩
  · split at hst
    · rename_i hj; exact hown hj (Option.some.inj hst).symm
    · cases hst; exact ⟨rfl, rfl, .inl rfl⟩
  · obtain ⟨u, hu, rfl⟩ := Option.map_eq_some_iff.1 hst
    obtain ⟨-, -, -, hb, hthr, -⟩ := requestOwnReturns_frame hu
    exact ⟨hb, hthr, .inr (.inr ⟨u, hu, rfl⟩)⟩
  · obtain ⟨u, hu, rfl⟩ := Option.map_eq_some_iff.1 hst
    obtain ⟨hb, hthr, hsrc⟩ := joinOwn_frame hu
    exact ⟨hb, hthr, .inl hsrc⟩
  · cases hst; exact ⟨rfl, rfl, .inl rfl⟩
  · cases hst; exact ⟨rfl, rfl, .inl rfl⟩
  · split at hst
    · rename_i hj; exact hown hj (Option.some.inj hst).symm
    · cases hst; exact ⟨rfl, rfl, .inl rfl⟩
  · obtain ⟨u, hu, rfl⟩ := Option.map_eq_some_iff.1 hst
    obtain ⟨-, -, -, hb, hthr, -⟩ := requestOwnReturns_frame hu
    exact ⟨hb, hthr, .inr (.inr ⟨u, hu, rfl⟩)⟩
  · cases hst; exact ⟨rfl, rfl, .inl rfl⟩
  · split at hst
    · obtain ⟨u, hu, rfl⟩ := Option.map_eq_some_iff.1 hst
      obtain ⟨hb, hthr, hsrc⟩ := joinOwn_frame hu
      exact ⟨hb, hthr, .inl hsrc⟩
    · cases hst; exact ⟨rfl, rfl, .inl rfl⟩
  · cases hst; exact ⟨rfl, rfl, .inl rfl⟩
  · cases hst

/-- **What a step can be, to the threads and their sources**: nothing, the creation of a thread, a step of the
controller's call or of a thread, the start or the end of a callback's execution, or one on an external source. -/
theorem step_cases {s t : Worker} {a : WorkerAct} (hst : s.step a = some t) :
    (t.born = s.born ∧ t.threads = s.threads ∧ t.sources = s.sources) ∨
    (s.ctl = .create ∧ t = { s.setThread s.born { pc := .created, token := s.call.external } with
      born := s.born + 1, ctl := .stopOld, call := { s.call with created := true } }) ∨
    (a = .go ∧ s.goStep = some t) ∨
    (∃ i, a = .thread i ∧ s.threadStep i = some t) ∨
    (∃ i l k, (s.threads i).linkSource i l = some k ∧ (s.threads i).callback l = .registered ∧
      (s.sources k).requesting = true ∧ t = s.setThread i { s.threads i with
        callback := Function.update (s.threads i).callback l .executing }) ∨
    (∃ i l, (s.threads i).callback l = .executing ∧ t = s.setThread i { s.threads i with
      combined := some true, callback := Function.update (s.threads i).callback l .done }) ∨
    (∃ e, (s.sources (.external e)).alive = true ∧
      t = s.setSource (.external e) (s.sources (.external e)).requestStop) ∨
    (∃ e, s.callbacksDone (.external e) ∧
      t = s.setSource (.external e) (s.sources (.external e)).requestReturns) ∨
    (∃ e, t = s.setSource (.external e) { s.sources (.external e) with alive := false }) := by
  cases a with
  | start e =>
    simp only [step] at hst
    split at hst
    · cases hst; exact .inl ⟨rfl, rfl, rfl⟩
    · cases hst
  | stop =>
    simp only [step] at hst
    split at hst
    · cases hst; exact .inl ⟨rfl, rfl, rfl⟩
    · cases hst
  | stopAndWait =>
    simp only [step] at hst
    split at hst
    · cases hst; exact .inl ⟨rfl, rfl, rfl⟩
    · cases hst
  | join =>
    simp only [step] at hst
    split at hst
    · cases hst; exact .inl ⟨rfl, rfl, rfl⟩
    · cases hst
  | ready ok =>
    simp only [step] at hst
    split at hst
    · cases ok <;> (cases hst; exact .inl ⟨rfl, rfl, rfl⟩)
    · cases hst
  | create ok =>
    simp only [step] at hst
    split at hst
    · rename_i hc
      cases ok with
      | true => exact .inr (.inl ⟨hc, (Option.some.inj hst).symm⟩)
      | false => cases hst; exact .inl ⟨rfl, rfl, rfl⟩
    · cases hst
  | go => exact .inr (.inr (.inl ⟨rfl, hst⟩))
  | thread i => exact .inr (.inr (.inr (.inl ⟨i, rfl, hst⟩)))
  | take i l =>
    simp only [step] at hst
    split at hst
    · rename_i k hk hcb
      split at hst
      · rename_i hreq
        cases hst
        exact .inr (.inr (.inr (.inr (.inl ⟨i, l, k, hk, hcb, hreq, rfl⟩))))
      · cases hst
    · cases hst
  | execute i l =>
    simp only [step] at hst
    split at hst
    · rename_i hcb
      cases hst
      exact .inr (.inr (.inr (.inr (.inr (.inl ⟨i, l, hcb, rfl⟩)))))
    · cases hst
  | requestStop e =>
    simp only [step] at hst
    split at hst
    · rename_i halive
      cases hst
      exact .inr (.inr (.inr (.inr (.inr (.inr (.inl ⟨e, halive, rfl⟩))))))
    · cases hst
  | requestReturns e =>
    simp only [step] at hst
    split at hst
    · rename_i hd
      cases hst
      exact .inr (.inr (.inr (.inr (.inr (.inr (.inr (.inl ⟨e, hd, rfl⟩)))))))
    · cases hst
  | release e =>
    simp only [step] at hst
    split at hst
    · cases hst
    · cases hst
      exact .inr (.inr (.inr (.inr (.inr (.inr (.inr (.inr ⟨e, rfl⟩)))))))

end Worker
end ThreadMessaging

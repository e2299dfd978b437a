import ThreadMessaging.Daemon
import ThreadMessaging.ManagerFresh
/-!
# The program: `main` with its daemon, its thread manager and the manager's own worker

`main` parses the command line, goes into the background if asked to, starts the test chain and then the daemon, polls
`isRunning` and reads a key or sleeps in between, and at the end closes all and destroys the manager (`main.cpp`).  What
it calls are steps of the `Daemon` and of the `ThreadManager`; its start and close functions start and stop the
manager's own worker, which waits for its stop, and its user handlers return true.  A chain thread ends once it has been
told to stop, and not before.  Signals can land at any step.

The options are what `getopt_long` returns one after the other; `none` is the 0 it returns for `--help`.
-/
namespace ThreadMessaging

/-- What `ProcessCommandLine` comes to: the program ends, or goes on with `isDaemon`. -/
inductive CommandLine
  | exit (status : Nat)
  | goesOn (isDaemon : Bool)
  deriving DecidableEq, Repr

def processCommandLine (isDaemon : Bool) : List (Option Char) → CommandLine
  | []                => .goesOn isDaemon
  | none :: rest      => processCommandLine isDaemon rest
  | some 'h' :: _     => .exit 0
  | some '?' :: _     => .exit 0
  | some 'v' :: _     => .exit 0
  | some 'D' :: rest  => processCommandLine true rest
  | some _ :: rest    => processCommandLine isDaemon rest

/-- **The command line alone never fails the program.** -/
theorem processCommandLine_exit {isDaemon : Bool} {options : List (Option Char)} {status : Nat}
    (h : processCommandLine isDaemon options = .exit status) : status = 0 := by
  fun_induction processCommandLine isDaemon options with
  | case1 => cases h
  | case2 isDaemon rest ih => exact ih h
  | case3 => cases h; rfl
  | case4 => cases h; rfl
  | case5 => cases h; rfl
  | case6 isDaemon rest ih => exact ih h
  | case7 isDaemon rest c _ _ _ _ ih => exact ih h

inductive HandleConsoleType
  | none
  | exit
  | stop
  | restart
  | terminate
  | stopObserving
  | startObserving
  | stressMode
  | setNormalMode
  deriving DecidableEq, Repr

/-- `HandleConsole`; `none` is the end of the input, or nothing there to read. -/
def handleConsole : Option Char → HandleConsoleType
  | some 'q' => .exit
  | some 's' => .stop
  | some 'r' => .restart
  | some 't' => .terminate
  | some 'p' => .stopObserving
  | some 'o' => .startObserving
  | some 'x' => .stressMode
  | some 'n' => .setNormalMode
  | _        => .none

inductive Fork
  | failed
  | parent
  | child
  deriving DecidableEq, Repr

/-- `makeDaemon`, called once, by what `fork` returns and whether the rest succeeds; `none` is the parent's `_exit`. -/
def makeDaemon (fork : Fork) (setsid chdir writePidToFile : Bool) : Option Bool :=
  match fork with
  | .failed => some false
  | .parent => none
  | .child  => some (setsid && chdir && writePidToFile)

/-- Where `main` stands; from `destructor` on it is about to return `status`. -/
inductive MainPc
  | commandLine
  | makeDaemon
  | initTestChain
  | adding
  | startAll
  | starting
  | loop
  | isRunning
  | handleConsole
  | operation
  | requestStop
  | closeAll
  | closing
  | destructor (status : Nat)
  | terminating (status : Nat)
  | leaving (status : Nat)
  | exited (status : Nat)
  deriving DecidableEq, Repr

structure Program where
  options  : List (Option Char)
  isDaemon : Bool
  daemon   : Daemon
  manager  : ThreadManager
  /-- The manager's own worker. -/
  worker   : TaskRun
  pc       : MainPc

/-- What can happen next: a step of `main` (with what it reads or what its system calls return), inside the daemon's
call or the manager's operation it is in or outside; a signal; the end of a thread; the observer's pop of a command. -/
inductive ProgramAct
  | go
  | forks (fork : Fork) (setsid chdir writePidToFile : Bool)
  | daemon
  | startWorker (ok : Bool)
  | userHandler
  | stopWorker
  | joinWorker
  | manager (a : ManagerAct)
  | key (k : Option Char)
  | signal (sig : Signal)
  | finish (t : TaskId)
  | finishWorker
  | popCommand
  deriving DecidableEq, Repr

namespace Program

/-- `main` has set all five functions. -/
def handlers : DaemonHandlers := { beforeToStart := true, beforeToExit := true, request := fun _ => true }

def init (options : List (Option Char)) : Program where
  options  := options
  isDaemon := false
  daemon   := Daemon.init handlers
  manager  := ThreadManager.init
  worker   := {}
  pc       := .commandLine

def callDaemon (p : Program) (a : DaemonAct) (pc : MainPc) : Option Program :=
  (p.daemon.step a).map (fun d => { p with daemon := d, pc := pc })

def callManager (p : Program) (a : ManagerAct) (pc : MainPc) : Option Program :=
  (p.manager.step a).map (fun m => { p with manager := m, pc := pc })

def goStep (p : Program) : Option Program :=
  match p.pc with
  | .commandLine =>
    match processCommandLine false p.options with
    | .exit status     => some { p with pc := .exited status }
    | .goesOn isDaemon => some { p with isDaemon := isDaemon, pc := if isDaemon then .makeDaemon else .initTestChain }
  | .initTestChain     => p.callManager .initTestChain .adding
  | .startAll          => p.callDaemon .startAll .starting
  | .loop              => p.callDaemon .isRunning .isRunning
  | .handleConsole     => if p.isDaemon then some { p with pc := .loop } else none
  | .requestStop       => p.callManager .requestStop .closeAll
  | .closeAll          => p.callDaemon .closeAll .closing
  | .destructor status => p.callManager .terminateAllThreads (.terminating status)
  | .leaving status    => if p.worker.running then none else some { p with pc := .exited status }
  | _                  => none

/-- Where a call of the daemon leads, when it returns `b`. -/
def afterCall : MainPc → Bool → Option MainPc
  | .starting, true   => some .loop
  | .starting, false  => some (.destructor 1)
  | .isRunning, true  => some .handleConsole
  | .isRunning, false => some .requestStop
  | .closing, _       => some (.destructor 0)
  | _, _              => none

def inDaemon : MainPc → Bool
  | .starting  => true
  | .isRunning => true
  | .closing   => true
  | _          => false

def daemonStep (p : Program) : Option Program :=
  match p.daemon.pc with
  | .ret b => (afterCall p.pc b).bind (fun pc => p.callDaemon .go pc)
  | _      => if inDaemon p.pc then p.callDaemon .go p.pc else none

def startWorkerStep (p : Program) (ok : Bool) : Option Program :=
  match p.pc, p.daemon.pc with
  | .starting, .startHandler =>
    let (w, started) := p.worker.start none ok
    (p.daemon.step (.returns started)).map (fun d => { p with daemon := d, worker := w })
  | _, _ => none

/-- The places inside an operation, and where its end leads; the destructor of the worker's thread asks it to stop. -/
def managerStep (p : Program) (a : ManagerAct) : Option Program :=
  match p.pc, a with
  | .adding, .start ok           => p.callManager (.start ok) .adding
  | .adding, .done               => p.callManager .done .startAll
  | .operation, .start ok        => p.callManager (.start ok) .operation
  | .operation, .join            => p.callManager .join .operation
  | .operation, .done            => p.callManager .done .loop
  | .terminating status, .join   => p.callManager .join (.terminating status)
  | .terminating status, .done   => (p.callManager .done (.leaving status)).map
                                      (fun q => { q with worker := q.worker.stop })
  | _, _                         => none

def keyStep (p : Program) (k : Option Char) : Option Program :=
  match handleConsole k with
  | .none           => some { p with pc := .loop }
  | .exit           => p.callDaemon .setStop .loop
  | .stop           => p.callManager .stopAllThreads .operation
  | .restart        => p.callManager .restartAllThreads .operation
  | .terminate      => p.callManager .terminateAllThreads .operation
  | .stopObserving  => p.callManager (.sendObserverCommand { type := .stopObserving, durationSec := 60 }) .loop
  | .startObserving => p.callManager (.sendObserverCommand { type := .startObserving, durationSec := 1 }) .loop
  | .stressMode     => p.callManager (.sendObserverCommand { type := .stressMode }) .loop
  | .setNormalMode  => p.callManager (.sendObserverCommand { type := .setNormalMode }) .loop

def isExited : MainPc → Bool
  | .exited _ => true
  | _         => false

def step (p : Program) : ProgramAct → Option Program
  | .go => p.goStep
  | .forks fork setsid chdir writePidToFile =>
    match p.pc with
    | .makeDaemon =>
      match ThreadMessaging.makeDaemon fork setsid chdir writePidToFile with
      | none       => some { p with pc := .exited 0 }
      | some true  => some { p with pc := .initTestChain }
      | some false => some { p with pc := .destructor 1 }
    | _ => none
  | .daemon         => p.daemonStep
  | .startWorker ok => p.startWorkerStep ok
  | .userHandler =>
    match p.pc, p.daemon.pc with
    | .isRunning, .inHandler _ => p.callDaemon (.returns true) .isRunning
    | _, _                     => none
  | .stopWorker =>
    match p.pc, p.daemon.pc with
    | .closing, .closeHandler => some { p with worker := p.worker.stop }
    | _, _                    => none
  | .joinWorker =>
    match p.pc, p.daemon.pc with
    | .closing, .closeHandler =>
      if p.worker.stopped && !p.worker.running then p.callDaemon (.returns true) .closing else none
    | _, _ => none
  | .manager a => p.managerStep a
  | .key k =>
    match p.pc with
    | .handleConsole => if p.isDaemon then none else p.keyStep k
    | _              => none
  | .signal sig    => if isExited p.pc then none else p.callDaemon (.signal sig) p.pc
  | .finish t      => if isExited p.pc || !p.manager.told t then none else p.callManager (.finish t) p.pc
  | .finishWorker  => if p.worker.running && p.worker.stopped then some { p with worker := p.worker.finish } else none
  | .popCommand    => p.callManager (.popCommand 0) p.pc

def machine (options : List (Option Char)) : Machine Program ProgramAct where
  init := init options
  step := step

/-! ## What the steps can be -/

theorem callDaemon_eq {p q : Program} {a : DaemonAct} {pc : MainPc} (h : p.callDaemon a pc = some q) :
    ∃ d, p.daemon.step a = some d ∧ q = { p with daemon := d, pc := pc } := by
  obtain ⟨d, hd, rfl⟩ := Option.map_eq_some_iff.1 h
  exact ⟨d, hd, rfl⟩

theorem callManager_eq {p q : Program} {a : ManagerAct} {pc : MainPc} (h : p.callManager a pc = some q) :
    ∃ m, p.manager.step a = some m ∧ q = { p with manager := m, pc := pc } := by
  obtain ⟨m, hm, rfl⟩ := Option.map_eq_some_iff.1 h
  exact ⟨m, hm, rfl⟩

/-- The moves of `main` between its calls. -/
inductive Goes : MainPc → MainPc → Prop
  | usage                    : Goes .commandLine (.exited 0)
  | parsed                   : Goes .commandLine .initTestChain
  | background               : Goes .commandLine .makeDaemon
  | parent                   : Goes .makeDaemon (.exited 0)
  | child                    : Goes .makeDaemon .initTestChain
  | failed                   : Goes .makeDaemon (.destructor 1)
  | noKey                    : Goes .handleConsole .loop
  | left (status : Nat)      : Goes (.leaving status) (.exited status)

/-- The steps of the manager that `main` makes, where it makes them and where they lead. -/
inductive Operates : MainPc → ManagerAct → MainPc → Prop
  | initTestChain                               : Operates .initTestChain .initTestChain .adding
  | add (ok : Bool)                             : Operates .adding (.start ok) .adding
  | added                                       : Operates .adding .done .startAll
  | stopAllThreads                              : Operates .handleConsole .stopAllThreads .operation
  | restartAllThreads                           : Operates .handleConsole .restartAllThreads .operation
  | terminateAllThreads                         : Operates .handleConsole .terminateAllThreads .operation
  | sendObserverCommand (cmd : ObserverCommand) : Operates .handleConsole (.sendObserverCommand cmd) .loop
  | start (ok : Bool)                           : Operates .operation (.start ok) .operation
  | join                                        : Operates .operation .join .operation
  | done                                        : Operates .operation .done .loop
  | requestStop                                 : Operates .requestStop .requestStop .closeAll
  | destructor (status : Nat)                   : Operates (.destructor status) .terminateAllThreads
                                                    (.terminating status)
  | joinLast (status : Nat)                     : Operates (.terminating status) .join (.terminating status)
  | terminated (status : Nat)                   : Operates (.terminating status) .done (.leaving status)

/-- The steps of the daemon, by where `main` and the daemon stand, and where they lead. -/
inductive Calls : MainPc → DaemonPc → DaemonAct → MainPc → Prop
  | startAll (d : DaemonPc)                     : Calls .startAll d .startAll .starting
  | isRunning (d : DaemonPc)                    : Calls .loop d .isRunning .isRunning
  | closeAll (d : DaemonPc)                     : Calls .closeAll d .closeAll .closing
  | setStop (d : DaemonPc)                      : Calls .handleConsole d .setStop .loop
  | signal (pc : MainPc) (d : DaemonPc) (sig : Signal) : Calls pc d (.signal sig) pc
  | inside (pc : MainPc) (d : DaemonPc) (hd : ∀ b, d ≠ .ret b) : Calls pc d .go pc
  | ret (pc pc' : MainPc) (b : Bool) (h : afterCall pc b = some pc') : Calls pc (.ret b) .go pc'
  | started (ok : Bool)                         : Calls .starting .startHandler (.returns ok) .starting
  | served (r : Request)                        : Calls .isRunning (.inHandler r) (.returns true) .isRunning
  | closed                                      : Calls .closing .closeHandler (.returns true) .closing

/-- **What a step can be**: a move of `main`, a step of the manager or of the daemon, the end of a thread that has been
told to stop, the observer's pop, or a matter of the worker's alone. -/
inductive Steps (p q : Program) (a : ProgramAct) : Prop
  | goes (hpc : Goes p.pc q.pc) (hm : q.manager = p.manager) (hd : q.daemon = p.daemon) (hw : q.worker = p.worker)
      (hleft : ∀ status, p.pc = .leaving status → p.worker.running = false)
  | operates (b : ManagerAct) (hpc : Operates p.pc b q.pc) (hm : p.manager.step b = some q.manager)
      (hd : q.daemon = p.daemon)
      (hw : q.worker = p.worker ∧ (∀ status, q.pc ≠ .leaving status) ∨ q.worker = p.worker.stop)
      (ha : b = .restartAllThreads → ∃ k, a = .key k ∧ handleConsole k = .restart)
  | finish (t : TaskId) (htold : p.manager.told t = true) (hm : p.manager.step (.finish t) = some q.manager)
      (hpc : q.pc = p.pc) (hd : q.daemon = p.daemon) (hw : q.worker = p.worker)
  | pops (hm : p.manager.step (.popCommand 0) = some q.manager) (hpc : q.pc = p.pc) (hd : q.daemon = p.daemon)
      (hw : q.worker = p.worker)
  | calls (b : DaemonAct) (hpc : Calls p.pc p.daemon.pc b q.pc) (hd : p.daemon.step b = some q.daemon)
      (hm : q.manager = p.manager) (hw : q.worker = p.worker ∨ p.pc = .starting)
  | worker (hpc : q.pc = p.pc) (hm : q.manager = p.manager) (hd : q.daemon = p.daemon)
      (hw : q.worker = p.worker.stop ∨ q.worker = p.worker.finish)

theorem steps_of_callDaemon {p q : Program} {a : ProgramAct} {b : DaemonAct} {pc : MainPc}
    (hst : p.callDaemon b pc = some q) (hpc : Calls p.pc p.daemon.pc b pc) : Steps p q a := by
  obtain ⟨d, hd, rfl⟩ := callDaemon_eq hst
  exact .calls b hpc hd rfl (.inl rfl)

theorem steps_of_callManager {p q : Program} {a : ProgramAct} {b : ManagerAct} {pc : MainPc}
    (hst : p.callManager b pc = some q) (hpc : Operates p.pc b pc) (hleft : ∀ status, pc ≠ .leaving status)
    (ha : b = .restartAllThreads → ∃ k, a = .key k ∧ handleConsole k = .restart) : Steps p q a := by
  obtain ⟨m, hm, rfl⟩ := callManager_eq hst
  exact .operates b hpc hm rfl (.inl ⟨rfl, hleft⟩) ha

theorem steps_of_goStep {p q : Program} (hst : p.goStep = some q) : Steps p q .go := by
  unfold goStep at hst
  split at hst
  · rename_i hpc
    have hleft : ∀ status, p.pc = .leaving status → p.worker.running = false := fun _ he => by rw [hpc] at he; cases he
    split at hst
    · rename_i status hparse
      cases hst
      refine .goes ?_ rfl rfl rfl hleft
      rw [hpc, processCommandLine_exit hparse]
      exact .usage
    · rename_i isDaemon hparse
      cases hst
      refine .goes ?_ rfl rfl rfl hleft
      rw [hpc]
      cases isDaemon with
      | true => exact .background
      | false => exact .parsed
  · rename_i hpc
    exact steps_of_callManager hst (by rw [hpc]; exact .initTestChain) nofun nofun
  · rename_i hpc
    exact steps_of_callDaemon hst (by rw [hpc]; exact .startAll _)
  · rename_i hpc
    exact steps_of_callDaemon hst (by rw [hpc]; exact .isRunning _)
  · rename_i hpc
    split at hst
    · cases hst
      exact .goes (by rw [hpc]; exact .noKey) rfl rfl rfl (fun _ he => by rw [hpc] at he; cases he)
    · cases hst
  · rename_i hpc
    exact steps_of_callManager hst (by rw [hpc]; exact .requestStop) nofun nofun
  · rename_i hpc
    exact steps_of_callDaemon hst (by rw [hpc]; exact .closeAll _)
  · rename_i status hpc
    exact steps_of_callManager hst (by rw [hpc]; exact .destructor status) nofun nofun
  · rename_i status hpc
    split at hst
    · cases hst
    · rename_i hrun
      cases hst
      exact .goes (by rw [hpc]; exact .left status) rfl rfl rfl (fun _ _ => by simpa using hrun)
  · cases hst

theorem steps_of_daemonStep {p q : Program} (hst : p.daemonStep = some q) : Steps p q .daemon := by
  unfold daemonStep at hst
  split at hst
  · rename_i b hd
    obtain ⟨pc, hpc, hst⟩ := Option.bind_eq_some_iff.1 hst
    exact steps_of_callDaemon hst (by rw [hd]; exact .ret _ _ b hpc)
  · rename_i hd
    split at hst
    · exact steps_of_callDaemon hst (.inside _ _ hd)
    · cases hst

theorem steps_of_startWorkerStep {p q : Program} {ok : Bool} (hst : p.startWorkerStep ok = some q) :
    Steps p q (.startWorker ok) := by
  unfold startWorkerStep at hst
  split at hst
  · rename_i hpc hd
    obtain ⟨d, hstep, rfl⟩ := Option.map_eq_some_iff.1 hst
    exact .calls _ (by rw [hpc, hd]; exact .started _) hstep rfl (.inr hpc)
  · cases hst

theorem steps_of_managerStep {p q : Program} {a : ManagerAct} (hst : p.managerStep a = some q) :
    Steps p q (.manager a) := by
  unfold managerStep at hst
  split at hst
  · rename_i ok hpc
    exact steps_of_callManager hst (by rw [hpc]; exact .add ok) nofun nofun
  · rename_i hpc
    exact steps_of_callManager hst (by rw [hpc]; exact .added) nofun nofun
  · rename_i ok hpc
    exact steps_of_callManager hst (by rw [hpc]; exact .start ok) nofun nofun
  · rename_i hpc
    exact steps_of_callManager hst (by rw [hpc]; exact .join) nofun nofun
  · rename_i hpc
    exact steps_of_callManager hst (by rw [hpc]; exact .done) nofun nofun
  · rename_i status hpc
    exact steps_of_callManager hst (by rw [hpc]; exact .joinLast status) nofun nofun
  · rename_i status hpc
    obtain ⟨r, hr, rfl⟩ := Option.map_eq_some_iff.1 hst
    obtain ⟨m, hm, rfl⟩ := callManager_eq hr
    exact .operates .done (by rw [hpc]; exact .terminated status) hm rfl (.inr rfl) nofun
  · cases hst

theorem steps_of_keyStep {p q : Program} {k : Option Char} (hpc : p.pc = .handleConsole) (hst : p.keyStep k = some q) :
    Steps p q (.key k) := by
  have hsend : ∀ {cmd}, p.callManager (.sendObserverCommand cmd) .loop = some q → Steps p q (.key k) :=
    fun hst => steps_of_callManager hst (by rw [hpc]; exact .sendObserverCommand _) nofun nofun
  unfold keyStep at hst
  split at hst
  · cases hst
    exact .goes (by rw [hpc]; exact .noKey) rfl rfl rfl (fun _ he => by rw [hpc] at he; cases he)
  · exact steps_of_callDaemon hst (by rw [hpc]; exact .setStop _)
  · exact steps_of_callManager hst (by rw [hpc]; exact .stopAllThreads) nofun nofun
  · rename_i hk
    exact steps_of_callManager hst (by rw [hpc]; exact .restartAllThreads) nofun (fun _ => ⟨k, rfl, hk⟩)
  · exact steps_of_callManager hst (by rw [hpc]; exact .terminateAllThreads) nofun nofun
  · exact hsend hst
  · exact hsend hst
  · exact hsend hst
  · exact hsend hst

theorem steps_of_step {p q : Program} {a : ProgramAct} (hst : p.step a = some q) : Steps p q a := by
  unfold step at hst
  split at hst
  · exact steps_of_goStep hst
  · split at hst
    · rename_i hpc
      have hleft : ∀ status, p.pc = .leaving status → p.worker.running = false :=
        fun _ he => by rw [hpc] at he; cases he
      split at hst
      · cases hst; exact .goes (by rw [hpc]; exact .parent) rfl rfl rfl hleft
      · cases hst; exact .goes (by rw [hpc]; exact .child) rfl rfl rfl hleft
      · cases hst; exact .goes (by rw [hpc]; exact .failed) rfl rfl rfl hleft
    · cases hst
  · exact steps_of_daemonStep hst
  · exact steps_of_startWorkerStep hst
  · split at hst
    · rename_i r hpc hd
      exact steps_of_callDaemon hst (by rw [hpc, hd]; exact .served r)
    · cases hst
  · split at hst
    · cases hst; exact .worker rfl rfl rfl (.inl rfl)
    · cases hst
  · split at hst
    · rename_i hpc hd
      split at hst
      · exact steps_of_callDaemon hst (by rw [hpc, hd]; exact .closed)
      · cases hst
    · cases hst
  · exact steps_of_managerStep hst
  · split at hst
    · rename_i k hpc
      split at hst
      · cases hst
      · exact steps_of_keyStep hpc hst
    · cases hst
  · split at hst
    · cases hst
    · exact steps_of_callDaemon hst (.signal _ _ _)
  · split at hst
    · cases hst
    · rename_i t hok
      obtain ⟨m, hm, rfl⟩ := callManager_eq hst
      simp only [Bool.or_eq_true, Bool.not_eq_true', not_or, Bool.not_eq_false] at hok
      exact .finish t hok.2 hm rfl rfl rfl
  · split at hst
    · cases hst; exact .worker rfl rfl rfl (.inr rfl)
    · cases hst
  · obtain ⟨m, hm, rfl⟩ := callManager_eq hst
    exact .pops hm rfl rfl rfl

/-! ## Where the manager and the daemon stand -/

def inAddTask : ManagerPc → Bool
  | .adding _ => true
  | _         => false

def inOperation : ManagerPc → Bool
  | .restarting _ => true
  | .joining _ _  => true
  | _             => false

def inTerminate : ManagerPc → Bool
  | .joining _ true => true
  | _               => false

def isIdle : ManagerPc → Bool
  | .idle => true
  | _     => false

/-- The places inside the manager's operations that go with a place of `main`. -/
def managerAt : MainPc → ManagerPc → Bool
  | .adding        => inAddTask
  | .operation     => inOperation
  | .terminating _ => inTerminate
  | _              => isIdle

def inStartAll : DaemonPc → Bool
  | .startWrite   => true
  | .startHandler => true
  | .ret _        => true
  | _             => false

def inIsRunning : DaemonPc → Bool
  | .test _      => true
  | .write _     => true
  | .call _      => true
  | .inHandler _ => true
  | .writeStop   => true
  | .compare     => true
  | .ret _       => true
  | _            => false

def inCloseAll : DaemonPc → Bool
  | .closeWrite   => true
  | .closeHandler => true
  | .ret _        => true
  | _             => false

def isOut : DaemonPc → Bool
  | .out => true
  | _    => false

/-- The places inside the daemon's calls that go with a place of `main`. -/
def daemonAt : MainPc → DaemonPc → Bool
  | .starting  => inStartAll
  | .isRunning => inIsRunning
  | .closing   => inCloseAll
  | _          => isOut

theorem managerAt_operates {m m' : ThreadManager} {pc pc' : MainPc} {b : ManagerAct} (h : Operates pc b pc')
    (hat : managerAt pc m.pc = true) (hst : m.step b = some m') : managerAt pc' m'.pc = true := by
  cases h with
  | initTestChain =>
    obtain ⟨-, hcall⟩ := ThreadManager.callStep_of_isCall rfl hst
    cases hcall; rfl
  | add ok =>
    simp only [ThreadManager.step] at hst
    split at hst
    · cases hst; rfl
    · rename_i hpc; rw [hpc] at hat; cases hat
    · cases hst
  | added =>
    simp only [ThreadManager.step] at hst
    split at hst
    · cases hst; rfl
    · cases hst; rfl
    · cases hst; rfl
    · cases hst
  | stopAllThreads =>
    obtain ⟨-, hcall⟩ := ThreadManager.callStep_of_isCall rfl hst
    cases hcall; rfl
  | restartAllThreads =>
    obtain ⟨-, hcall⟩ := ThreadManager.callStep_of_isCall rfl hst
    cases hcall; rfl
  | terminateAllThreads =>
    obtain ⟨-, hcall⟩ := ThreadManager.callStep_of_isCall rfl hst
    cases hcall; rfl
  | sendObserverCommand cmd =>
    obtain ⟨hidle, hcall⟩ := ThreadManager.callStep_of_isCall rfl hst
    cases hcall
    obtain ⟨buffer, sent, heq⟩ := m.sendObserverCommand_eq cmd
    rw [heq, hidle]; rfl
  | start ok =>
    simp only [ThreadManager.step] at hst
    split at hst
    · rename_i hpc; rw [hpc] at hat; cases hat
    · cases hst; rfl
    · cases hst
  | join =>
    simp only [ThreadManager.step] at hst
    split at hst
    · split at hst
      · cases hst
      · cases hst; rfl
    · rename_i hpc; rw [hpc] at hat; cases hat
    · cases hst
  | done =>
    simp only [ThreadManager.step] at hst
    split at hst
    · cases hst; rfl
    · cases hst; rfl
    · cases hst; rfl
    · cases hst
  | requestStop =>
    obtain ⟨hidle, hcall⟩ := ThreadManager.callStep_of_isCall rfl hst
    cases hcall
    show managerAt .closeAll m.pc = true
    rw [hidle]; rfl
  | destructor status =>
    obtain ⟨-, hcall⟩ := ThreadManager.callStep_of_isCall rfl hst
    cases hcall; rfl
  | joinLast status =>
    simp only [ThreadManager.step] at hst
    split at hst
    · rename_i t rest clear hpc
      rw [hpc] at hat
      cases clear with
      | false => cases hat
      | true =>
        split at hst
        · cases hst
        · cases hst; rfl
    · rename_i hpc; rw [hpc] at hat; cases hat
    · cases hst
  | terminated status =>
    simp only [ThreadManager.step] at hst
    split at hst
    · cases hst; rfl
    · cases hst; rfl
    · cases hst; rfl
    · cases hst

/-- The places of a poll. -/
theorem daemonAt_isRunning {pc : MainPc} {d : DaemonPc} (hat : daemonAt pc d = true)
    (hd : (∃ r, d = .test r ∨ d = .write r ∨ d = .call r ∨ d = .inHandler r) ∨ d = .writeStop ∨ d = .compare) :
    pc = .isRunning := by
  rcases hd with ⟨r, rfl | rfl | rfl | rfl⟩ | rfl | rfl
  all_goals cases pc <;> first | rfl | cases hat

theorem daemonAt_performIfRequired (d : Daemon) (r : Request) :
    daemonAt .isRunning (d.performIfRequired r).pc = true := by
  show daemonAt .isRunning (if d.handlers.request r then .call r else .compare) = true
  split
  · rfl
  · rfl

theorem daemonAt_go {d d' : Daemon} {pc : MainPc} (hd : ∀ b, d.pc ≠ .ret b) (hat : daemonAt pc d.pc = true)
    (hst : d.goStep = some d') : daemonAt pc d'.pc = true := by
  unfold Daemon.goStep at hst
  split at hst
  · rename_i hpc
    rw [hpc] at hat
    cases pc <;> cases hat
    cases hst
    show daemonAt .starting (if d.handlers.beforeToStart then .startHandler else .ret false) = true
    split
    · rfl
    · rfl
  · rename_i hpc
    rw [hpc] at hat
    cases pc <;> cases hat
    cases hst
    show daemonAt .closing (if d.handlers.beforeToExit then .closeHandler else .ret false) = true
    split
    · rfl
    · rfl
  · rename_i r hpc
    obtain rfl := daemonAt_isRunning hat (.inl ⟨r, .inl hpc⟩)
    cases hst
    show daemonAt .isRunning (if d.state = r.state then .write r else Daemon.nextTest r) = true
    split
    · rfl
    · cases r <;> rfl
  · rename_i hpc
    obtain rfl := daemonAt_isRunning hat (.inl ⟨_, .inr (.inl hpc)⟩)
    cases hst; exact daemonAt_performIfRequired d _
  · rename_i hpc
    obtain rfl := daemonAt_isRunning hat (.inl ⟨_, .inr (.inl hpc)⟩)
    cases hst; exact daemonAt_performIfRequired d _
  · rename_i hpc
    obtain rfl := daemonAt_isRunning hat (.inl ⟨_, .inr (.inl hpc)⟩)
    cases hst; exact daemonAt_performIfRequired d _
  · rename_i r hpc
    obtain rfl := daemonAt_isRunning hat (.inl ⟨r, .inr (.inr (.inl hpc))⟩)
    cases hst; rfl
  · rename_i hpc
    obtain rfl := daemonAt_isRunning hat (.inr (.inl hpc))
    cases hst; rfl
  · rename_i hpc
    obtain rfl := daemonAt_isRunning hat (.inr (.inr hpc))
    cases hst; rfl
  · rename_i b hpc
    exact absurd hpc (hd b)
  · cases hst

theorem afterCall_out {pc pc' : MainPc} {b : Bool} (h : afterCall pc b = some pc') : daemonAt pc' .out = true := by
  unfold afterCall at h
  split at h <;> cases h <;> rfl

theorem daemonAt_calls {d d' : Daemon} {pc pc' : MainPc} {b : DaemonAct} (h : Calls pc d.pc b pc')
    (hat : daemonAt pc d.pc = true) (hst : d.step b = some d') : daemonAt pc' d'.pc = true := by
  generalize hdpc : d.pc = dpc at h
  cases h with
  | startAll =>
    simp only [Daemon.step] at hst
    split at hst
    · cases hst; rfl
    · cases hst
  | isRunning =>
    simp only [Daemon.step] at hst
    split at hst
    · cases hst; rfl
    · cases hst
  | closeAll =>
    simp only [Daemon.step] at hst
    split at hst
    · cases hst; rfl
    · cases hst
  | setStop =>
    simp only [Daemon.step] at hst
    split at hst
    · rename_i hout
      cases hst
      show daemonAt .loop d.pc = true
      rw [hout]; rfl
    · rename_i r hin
      rw [hin] at hat; cases hat
    · cases hst
  | signal sig => cases hst; exact hat
  | inside _ _ hd => exact daemonAt_go (hdpc ▸ hd) hat hst
  | ret _ _ b h =>
    simp only [Daemon.step, Daemon.goStep, hdpc] at hst
    cases hst
    exact afterCall_out h
  | started ok =>
    simp only [Daemon.step, Daemon.returnsStep, hdpc] at hst
    cases hst; rfl
  | served r =>
    simp only [Daemon.step, Daemon.returnsStep, hdpc] at hst
    cases hst; rfl
  | closed =>
    simp only [Daemon.step, Daemon.returnsStep, hdpc] at hst
    cases hst; rfl

/-- `main` calls one thing at a time. -/
structure Placed (p : Program) : Prop where
  manager : managerAt p.pc p.manager.pc = true
  daemon  : daemonAt p.pc p.daemon.pc = true

theorem pc_finish {m m' : ThreadManager} {t : TaskId} (hst : m.step (.finish t) = some m') : m'.pc = m.pc := by
  simp only [ThreadManager.step] at hst
  split at hst
  · cases hst; rfl
  · cases hst

theorem pc_popCommand {m m' : ThreadManager} {k : Nat} (hst : m.step (.popCommand k) = some m') : m'.pc = m.pc := by
  simp only [ThreadManager.step] at hst
  split at hst
  · cases hst; rfl
  · cases hst

theorem placed_goes {pc pc' : MainPc} (h : Goes pc pc') {m : ManagerPc} {d : DaemonPc} (hm : managerAt pc m = true)
    (hd : daemonAt pc d = true) : managerAt pc' m = true ∧ daemonAt pc' d = true := by
  cases h <;> exact ⟨hm, hd⟩

theorem placed_calls {pc pc' : MainPc} {d : DaemonPc} {b : DaemonAct} (h : Calls pc d b pc') {m : ManagerPc}
    (hm : managerAt pc m = true) : managerAt pc' m = true := by
  cases h with
  | ret _ _ b h =>
    unfold afterCall at h
    split at h <;> cases h <;> exact hm
  | _ => exact hm

theorem placed_operates {pc pc' : MainPc} {b : ManagerAct} (h : Operates pc b pc') {d : DaemonPc}
    (hd : daemonAt pc d = true) : daemonAt pc' d = true := by
  cases h <;> exact hd

theorem placed_step {p q : Program} {a : ProgramAct} (h : p.Placed) (hst : p.step a = some q) : q.Placed := by
  rcases steps_of_step hst with ⟨hpc, hm, hd, -, -⟩ | ⟨b, hpc, hm, hd, -, -⟩ | ⟨t, -, hm, hpc, hd, -⟩ |
    ⟨hm, hpc, hd, -⟩ | ⟨b, hpc, hd, hm, -⟩ | ⟨hpc, hm, hd, -⟩
  · obtain ⟨hat, hdt⟩ := placed_goes hpc h.manager h.daemon
    exact ⟨by rw [hm]; exact hat, by rw [hd]; exact hdt⟩
  · exact ⟨managerAt_operates hpc h.manager hm, by rw [hd]; exact placed_operates hpc h.daemon⟩
  · exact ⟨by rw [hpc, pc_finish hm]; exact h.manager, by rw [hpc, hd]; exact h.daemon⟩
  · exact ⟨by rw [hpc, pc_popCommand hm]; exact h.manager, by rw [hpc, hd]; exact h.daemon⟩
  · exact ⟨by rw [hm]; exact placed_calls hpc h.manager, daemonAt_calls hpc h.daemon hd⟩
  · exact ⟨by rw [hpc, hm]; exact h.manager, by rw [hpc, hd]; exact h.daemon⟩

variable {options : List (Option Char)}

theorem reachable_placed {p : Program} (hp : (machine options).Reachable p) : p.Placed :=
  Machine.Reachable.invariant (I := Placed) ⟨rfl, rfl⟩ (fun _ _ _ h hst => placed_step h hst) hp

/-- **`main` uses its manager as any caller could.** -/
theorem reachable_manager {p : Program} (hp : (machine options).Reachable p) :
    ThreadManager.machine.Reachable p.manager := by
  refine Machine.Reachable.map (fun p : Program => p.manager) .init (fun p a q _ hst => ?_) hp
  rcases steps_of_step hst with ⟨-, hm, -, -, -⟩ | ⟨b, -, hm, -, -, -⟩ | ⟨t, -, hm, -, -, -⟩ |
    ⟨hm, -, -, -⟩ | ⟨b, -, -, hm, -⟩ | ⟨-, hm, -, -⟩
  · exact .inl hm
  · exact .inr ⟨b, hm⟩
  · exact .inr ⟨.finish t, hm⟩
  · exact .inr ⟨.popCommand 0, hm⟩
  · exact .inl hm
  · exact .inl hm

/-- **`main` uses its daemon as any caller could.** -/
theorem reachable_daemon {p : Program} (hp : (machine options).Reachable p) :
    (Daemon.machine handlers).Reachable p.daemon := by
  refine Machine.Reachable.map (fun p : Program => p.daemon) .init (fun p a q _ hst => ?_) hp
  rcases steps_of_step hst with ⟨-, -, hd, -, -⟩ | ⟨b, -, -, hd, -, -⟩ | ⟨t, -, -, -, hd, -⟩ |
    ⟨-, -, hd, -⟩ | ⟨b, -, hd, -, -⟩ | ⟨-, -, hd, -⟩
  · exact .inl hd
  · exact .inl hd
  · exact .inl hd
  · exact .inl hd
  · exact .inr ⟨b, hd⟩
  · exact .inl hd

theorem handlers_step {d d' : Daemon} {a : DaemonAct} (hst : d.step a = some d') : d'.handlers = d.handlers := by
  rcases Daemon.step_cases hst with ⟨sig, -, rfl⟩ | ⟨-, hgo⟩ | ⟨ok, -, hret⟩ | ⟨-, -, rfl⟩ | ⟨-, -, rfl⟩ |
    ⟨-, rfl | rfl⟩
  · rfl
  · unfold Daemon.goStep at hgo
    split at hgo <;> cases hgo <;> rfl
  · unfold Daemon.returnsStep at hret
    split at hret
    · cases hret; rfl
    · cases hret; rfl
    · split at hret <;> cases hret <;> rfl
    · cases hret
  · rfl
  · rfl
  · rfl
  · rfl

/-- The handlers `main` sets are never replaced. -/
theorem reachable_handlers {p : Program} (hp : (machine options).Reachable p) : p.daemon.handlers = handlers :=
  (reachable_daemon hp).invariant (I := fun d => d.handlers = handlers) rfl
    (fun _ _ _ h hst => (handlers_step hst).trans h)

end Program
end ThreadMessaging

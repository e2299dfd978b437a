import ThreadMessaging.ChainObserver
import ThreadMessaging.SpScHandover
/-!
# The commands of the chain's observer

`sendCommand` is called by the main thread whether the observer runs or not; the command waits in the ring buffer, which
outlives the observer's thread.  Each command it has accepted is applied once, in the order they were sent, whatever
stops and restarts fall in between (`commands_applied`).
-/
namespace ThreadMessaging

/-- What became of the commands: on the command path, and at the observer. -/
structure ChainLog where
  path    : CommandLog ObserverCommand := {}
  /-- The commands that `applyCommand` has been called with. -/
  applied : List ObserverCommand := []
  deriving DecidableEq, Repr

namespace CommandPath

variable {T : Type}

theorem waiter_idle_step {s t : CommandPath T} {a : CommandAct T} (hw : s.waiter = .idle) (ha : a ≠ .waitPopFor)
    (hst : s.step a = some t) : t.waiter = .idle := by
  by_cases hs : bySender a = true
  · rcases (sender_side hs hst).2.2 with heq | ⟨hb, -⟩
    · exact heq.trans hw
    · rw [hw] at hb; cases hb
  · cases a with
    | waitPopFor => exact absurd rfl ha
    | sendCommand cmd => exact absurd rfl hs
    | sender b => exact absurd rfl hs
    | pushed => exact absurd rfl hs
    | notifyOne => exact absurd rfl hs
    | sent => exact absurd rfl hs
    | _ => simp [step, hw] at hst

end CommandPath

namespace Chain

def noteCommands (l : ChainLog) (s : Chain) (a : ChainAct) (_ : Chain) : ChainLog :=
  match a with
  | .command b => { l with path := CommandPath.noteCommand l.path s.cmdPath b }
  | .go t _ =>
    match s.pc t with
    | .waitCommand   => { l with path := CommandPath.noteCommand l.path s.cmdPath .unlock }
    | .commanded cmd => { l with applied := l.applied ++ cmd.toList }
    | _              => l
  | _ => l

/-- The command that the observer's thread has got and not applied. -/
def commandOf : ChainPc → List ObserverCommand
  | .commanded cmd => cmd.toList
  | _              => []

/-- A command in the observer's hand: got, or popped by the wait it is in. -/
def commandInHand (s : Chain) : List ObserverCommand := commandOf (s.pc .observerIncoming) ++ s.cmdPath.popped

/-- **The commands between the sender and the observer.** -/
structure CommandsInv (s : Chain) (l : ChainLog) : Prop where
  handover : s.cmdPath.Handover l.path
  applied  : l.path.taken = l.applied ++ commandOf (s.pc .observerIncoming)
  waits    : s.cmdPath.waiter ≠ .idle → s.pc .observerIncoming = .waitCommand

section Step

variable {s s' : Chain} {l l' : ChainLog}

/-- A step that is none of the command path's. -/
theorem CommandsInv.same (h : CommandsInv s l) (hp : s'.cmdPath = s.cmdPath) (hpath : l'.path = l.path)
    (happ : l'.applied ++ commandOf (s'.pc .observerIncoming) = l.applied ++ commandOf (s.pc .observerIncoming))
    (hw : s.pc .observerIncoming = .waitCommand → s'.pc .observerIncoming = .waitCommand) : CommandsInv s' l' := by
  refine ⟨?_, ?_, ?_⟩
  · rw [hp, hpath]; exact h.handover
  · rw [hpath, h.applied, happ]
  · rw [hp]; exact fun hne => hw (h.waits hne)

/-- A step of thread `t` that is none of the command path's. -/
theorem CommandsInv.goto (h : CommandsInv s l) {t : ChainTask} {c : ChainPc} (hpc : s'.pc = Function.update s.pc t c)
    (hp : s'.cmdPath = s.cmdPath) (hpath : l'.path = l.path)
    (happ : t = .observerIncoming → l'.applied ++ commandOf c = l.applied ++ commandOf (s.pc t))
    (hother : t ≠ .observerIncoming → l'.applied = l.applied)
    (hw : s.pc t ≠ .waitCommand) : CommandsInv s' l' := by
  by_cases ht : t = .observerIncoming
  · subst ht
    have hself : s'.pc .observerIncoming = c := by rw [hpc, Function.update_self]
    exact h.same hp hpath (by rw [hself]; exact happ rfl) (fun he => absurd he hw)
  · have hself : s'.pc .observerIncoming = s.pc .observerIncoming := by rw [hpc, Function.update_of_ne (Ne.symm ht)]
    exact h.same hp hpath (by rw [hself, hother ht]) (fun he => hself.trans he)

theorem commandOf_of_turns {c c' : ChainPc} (h : Turns c c') : commandOf c' = [] := by
  cases h <;> rfl

/-- What a thread's step adds to the log, where it is none of the command path's. -/
theorem noteCommands_go {t : ChainTask} {now : TimePoint} (hw : s.pc t ≠ .waitCommand) :
    noteCommands l s (.go t now) s' = { l with applied := l.applied ++ commandOf (s.pc t) } := by
  cases hpc : s.pc t with
  | waitCommand => exact absurd hpc hw
  | _ => simp [noteCommands, hpc, commandOf]

/-- The observer's thread goes into its wait. -/
theorem CommandsInv.wait (h : CommandsInv s l) (hp : s.cmdPath.step .waitPopFor = some s'.cmdPath)
    (hpc : s'.pc = Function.update s.pc .observerIncoming .waitCommand) (hlog : l' = { l with
      applied := l.applied ++ commandOf (s.pc .observerIncoming) }) : CommandsInv s' l' := by
  have hself : s'.pc .observerIncoming = .waitCommand := by rw [hpc, Function.update_self]
  subst hlog
  refine ⟨CommandPath.handover_step h.handover hp, ?_, fun _ => hself⟩
  rw [hself, h.applied]
  exact (List.append_nil _).symm

theorem goStep_waitCommand {t : ChainTask} {now : TimePoint} (hpc : s.pc t = .waitCommand)
    (hst : s.goStep t now = some s') : ∃ cmd p, s.cmdPath.waiter = .ret cmd ∧ s.cmdPath.step .unlock = some p ∧
      s'.pc = Function.update s.pc t (.commanded cmd) ∧ s'.cmdPath = p := by
  unfold goStep at hst
  rw [hpc] at hst
  dsimp only at hst
  split at hst
  · rename_i cmd hw
    obtain ⟨p, hp, rfl⟩ := Option.map_eq_some_iff.1 hst
    exact ⟨cmd, p, hw, hp, rfl, rfl⟩
  · cases hst

/-- The wait's return hands the observer's thread what it has popped. -/
theorem commandsInv_unlock {t : ChainTask} {now : TimePoint} (hl : LinkInv s) (h : CommandsInv s l)
    (hpc : s.pc t = .waitCommand) (hst : s.goStep t now = some s') :
    CommandsInv s' (noteCommands l s (.go t now) s') := by
  obtain rfl := hl.eq_observer hpc rfl
  obtain ⟨cmd, p, hw, hp, hpc', rfl⟩ := goStep_waitCommand hpc hst
  have hself : s'.pc .observerIncoming = .commanded cmd := by rw [hpc', Function.update_self]
  have happ := h.applied
  rw [hpc] at happ
  have hidle : s'.cmdPath.waiter = .idle := by
    simp only [CommandPath.step, hw] at hp
    exact congrArg CommandPath.waiter (Option.some.inj hp).symm
  simp only [noteCommands, hpc]
  refine ⟨CommandPath.handover_step h.handover hp, ?_, fun hne => absurd hidle hne⟩
  simp only [CommandPath.noteCommand, hw, hself]
  rw [happ]
  exact congrArg (· ++ cmd.toList) (List.append_nil _)

theorem commandsInv_go {t : ChainTask} {now : TimePoint} (hl : LinkInv s) (h : CommandsInv s l)
    (hst : s.goStep t now = some s') : CommandsInv s' (noteCommands l s (.go t now) s') := by
  by_cases hw : s.pc t = .waitCommand
  · exact commandsInv_unlock hl h hw hst
  -- only the observer has a command to apply
  have hnone : t ≠ .observerIncoming → commandOf (s.pc t) = [] := by
    intro hne
    cases hpc : s.pc t with
    | commanded cmd => exact absurd (hl.eq_observer hpc rfl) hne
    | _ => rfl
  have hmove : ∀ {u : Chain} {c : ChainPc}, u.pc = Function.update s.pc t c → u.cmdPath = s.cmdPath →
      commandOf c = [] → CommandsInv u { l with applied := l.applied ++ commandOf (s.pc t) } := by
    intro u c hpc hp hc
    refine h.goto hpc hp rfl (fun _ => ?_) (fun hne => ?_) hw
    · rw [hc, List.append_nil]
    · show l.applied ++ commandOf (s.pc t) = l.applied
      rw [hnone hne, List.append_nil]
  rw [noteCommands_go hw]
  rcases goStep_cases hst with ⟨c, hturn, hgo⟩ | ⟨hpc, m, -, rfl⟩ | ⟨hpc, rfl, p, hp, rfl⟩ | ⟨hpc, -, q, -, rfl⟩ |
    ⟨msg, q, hpc, -, -, rfl⟩ | ⟨p, hpc, rfl⟩ | ⟨r, p, rest, q, hpc, -, rfl⟩ | ⟨cmd, p, hpc, hp, rfl⟩ | ⟨hpc, rfl⟩
  · exact hmove hgo.pc hgo.cmdPath (commandOf_of_turns hturn)
  · exact hmove (c := .exited) rfl rfl rfl
  · exact h.wait hp rfl rfl
  · exact hmove (c := .waiting) rfl rfl rfl
  · exact hmove (c := .got msg) rfl rfl rfl
  · unfold handleStep
    split
    · exact hmove (c := .sending _) rfl rfl rfl
    · exact hmove (c := .head) rfl rfl rfl
  · exact hmove (c := .notifying r rest) rfl rfl rfl
  · exact absurd hpc hw
  · exact hmove (c := .sending _) rfl rfl rfl

theorem commandsInv_step {a : ChainAct} (hl : LinkInv s) (h : CommandsInv s l) (hst : s.step a = some s') :
    CommandsInv s' (noteCommands l s a s') := by
  cases a with
  | manager b =>
    simp only [step] at hst
    split at hst
    · obtain ⟨m, -, rfl⟩ := Option.map_eq_some_iff.1 hst
      -- a thread that is started had exited
      have hpc : (s.withManager m).pc .observerIncoming = s.pc .observerIncoming ∨
          s.pc .observerIncoming = .exited ∧ (s.withManager m).pc .observerIncoming = .head := by
        by_cases hs : (!s.manager.running (taskId .observerIncoming) && m.running (taskId .observerIncoming)) = true
        · refine .inr ⟨hl.exited _ ?_, if_pos hs⟩
          simp only [Bool.and_eq_true, Bool.not_eq_true'] at hs
          exact hs.1
        · exact .inl (if_neg hs)
      rcases hpc with heq | ⟨hex, hhd⟩
      · exact h.same rfl rfl (by rw [heq]; rfl) (fun he => heq.trans he)
      · exact h.same rfl rfl (by rw [hhd, hex]; rfl) (fun he => by rw [hex] at he; cases he)
    · cases hst
  | command b =>
    simp only [step] at hst
    split at hst
    · rename_i hok
      obtain ⟨p, hp, rfl⟩ := Option.map_eq_some_iff.1 hst
      refine ⟨CommandPath.handover_step h.handover hp, ?_, fun hne => h.waits (fun hidle => hne ?_)⟩
      · -- the return of the wait is the observer's own step
        have htaken : (CommandPath.noteCommand l.path s.cmdPath b).taken = l.path.taken := by
          cases b with
          | unlock => cases hok
          | sent => simp only [CommandPath.noteCommand]; split <;> rfl
          | _ => rfl
        exact htaken.trans h.applied
      · exact CommandPath.waiter_idle_step hidle (fun he => by rw [he] at hok; cases hok) hp
    · cases hst
  | go t now => exact commandsInv_go hl h hst
  | notify t target =>
    simp only [step] at hst
    split at hst
    · rename_i r rest hpc
      obtain ⟨u, hu, rfl⟩ := Option.map_eq_some_iff.1 hst
      obtain ⟨q, -, rfl⟩ := queueStep_eq hu
      exact h.goto (t := t) (c := .sending rest) rfl rfl rfl (fun _ => by rw [hpc]; rfl) (fun _ => rfl)
        (fun he => by rw [hpc] at he; cases he)
    · cases hst
  | wake t =>
    simp only [step] at hst
    split at hst
    · obtain ⟨q, -, rfl⟩ := queueStep_eq hst
      exact h.same rfl rfl rfl id
    · cases hst
  | recheck t timedOut =>
    simp only [step] at hst
    split at hst
    · obtain ⟨q, -, rfl⟩ := queueStep_eq hst
      exact h.same rfl rfl rfl id
    · cases hst

end Step

theorem commandsInv_init : CommandsInv init {} := ⟨CommandPath.handover_init _, rfl, fun hne => absurd rfl hne⟩

/-- **Each command that `sendCommand` has accepted is applied once, and in order**, whatever stops and restarts fall in
between: it has been applied, or is in the observer's hand, or among the seven at most that lie in the ring buffer.  No
other is applied, and an observer that has exited has none in its hand. -/
theorem commands_applied {s : Chain} {l : ChainLog} (hs : (machine.withHistory {} noteCommands).Reachable (s, l)) :
    (∃ waiting, l.applied ++ s.commandInHand ++ waiting = l.path.accepted ++ s.cmdPath.underway l.path ∧
      waiting.length ≤ 7 ∧ CommandPath.Content 8 s.cmdPath.ring waiting) ∧
    (s.cmdPath.sender = .idle → s.cmdPath.underway l.path = []) ∧
    (s.pc .observerIncoming = .exited → s.commandInHand = []) := by
  have h : CommandsInv s l := hs.history_invariant (I := CommandsInv) (fun s hs => (reachable_flowInv hs).1)
    commandsInv_init (fun s l a s' hl hI hst => commandsInv_step hl hI hst)
  have hinit : ({} : SpScRingBuffer ObserverCommand).init 8 = (CommandPath.cmdBuffer, true) := rfl
  have hring : Spsc.Inv 8 s.cmdPath.ring :=
    Spsc.reachable_inv hinit (CommandPath.reachable_ring (reachable_cmdPath hs.fst))
  refine ⟨?_, fun hidle => ?_, fun hexit => ?_⟩
  · obtain ⟨waiting, heq, hlen, hcontent⟩ := h.handover.waiting hring
    refine ⟨waiting, ?_, by omega, hcontent⟩
    rw [← heq, h.applied]
    unfold commandInHand
    simp only [List.append_assoc]
  · unfold CommandPath.underway CommandPath.hasPushed
    rw [hidle]; rfl
  · have hwait : s.cmdPath.waiter = .idle := by
      by_contra hne
      have hpc := h.waits hne
      rw [hexit] at hpc; cases hpc
    unfold commandInHand
    rw [hexit, CommandPath.popped_eq_nil hwait rfl]; rfl

/-- A command accepted while the observer is stopped waits for its next thread. -/
theorem commands_applied_stopped : ∃ (s : Chain) (l : ChainLog), s.pc .observerIncoming = .exited ∧
    l.path.accepted = [{ type := .stressMode }] ∧ l.applied = [] ∧ s.commandInHand = [] ∧
    CommandPath.Content 8 s.cmdPath.ring [{ type := .stressMode }] := by
  obtain ⟨p, hrun⟩ : ∃ p, (machine.withHistory {} noteCommands).runFrom (machine.withHistory {} noteCommands).init
      [.manager .initTestChain, .manager (.start true), .manager (.start true), .manager (.start true),
       .manager (.start true), .manager (.start true), .manager .done,
       .manager .stopAllThreads, .go .observerIncoming 0, .go .appObserver 0, .go .processing 0, .go .transformation 0,
       .go .result 0, .manager .join, .manager .join, .manager .join, .manager .join, .manager .join, .manager .done,
       .command (.sendCommand { type := .stressMode }), .command (.sender .producer),
       .command (.sender (.producerLoads 0)), .command (.sender .producer), .command (.sender .producer),
       .command .pushed, .command .notifyOne, .command .sent] = some p := ⟨_, rfl⟩
  have hpc : p.1.pc .observerIncoming = .exited := by cases hrun; rfl
  have hsender : p.1.cmdPath.sender = .idle := by cases hrun; rfl
  have hlog : p.2.path.accepted = [{ type := .stressMode }] ∧ p.2.applied = [] := by cases hrun; exact ⟨rfl, rfl⟩
  obtain ⟨⟨waiting, heq, -, hcontent⟩, hunder, hexit⟩ := commands_applied (Machine.reachable_of_run _ hrun)
  rw [hexit hpc, hunder hsender, hlog.1, hlog.2] at heq
  obtain rfl : waiting = [{ type := .stressMode }] := heq
  exact ⟨p.1, p.2, hpc, hlog.1, hlog.2, hexit hpc, hcontent⟩

end Chain
end ThreadMessaging

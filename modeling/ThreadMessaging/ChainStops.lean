import ThreadMessaging.ChainDrain
import ThreadMessaging.ChainCommands
import ThreadMessaging.SpScReturns
import ThreadMessaging.ManagerFresh
/-!
# A chain thread that is told to stop ends

`stopAllThreads` joins each thread it has told to stop, and so returns only if their `run` does.  It does: wherever a
thread stands in its loop when it is told, it can take each of its steps to the end by itself (`exists_own`), at its
wait's timeout if need be, and there are at most 29 of them, and six more for each time it is woken before the timeout
(`stop_honoured`).  No message, no command and no other thread is needed for it, and none keeps it from it.
-/
namespace ThreadMessaging
namespace Chain

variable {s s' : Chain}

/-! ## Where the observer waits -/

/-- The observer is inside `wait_pop_for` exactly while its loop waits for a command. -/
def Waits (s : Chain) : Prop := s.cmdPath.waiter ≠ .idle ↔ s.pc .observerIncoming = .waitCommand

theorem Waits.same (h : Waits s) (hp : s'.cmdPath = s.cmdPath)
    (hw : s'.pc .observerIncoming = .waitCommand ↔ s.pc .observerIncoming = .waitCommand) : Waits s' := by
  unfold Waits
  rw [hp, hw]
  exact h

/-- A thread's move between two places that are not the wait for a command. -/
theorem Waits.goto (h : Waits s) {t : ChainTask} {c : ChainPc} (hpc : s'.pc = Function.update s.pc t c)
    (hp : s'.cmdPath = s.cmdPath) (hw : s.pc t ≠ .waitCommand) (hc : c ≠ .waitCommand) : Waits s' := by
  refine h.same hp ?_
  by_cases ht : t = .observerIncoming
  · subst ht
    rw [hpc, Function.update_self]
    exact ⟨fun he => absurd he hc, fun he => absurd he hw⟩
  · rw [hpc, Function.update_of_ne (Ne.symm ht)]

theorem Turns.ne_waitCommand {c c' : ChainPc} (h : Turns c c') : c ≠ .waitCommand ∧ c' ≠ .waitCommand := by
  cases h <;> exact ⟨(fun he => by cases he), fun he => by cases he⟩

theorem waits_go {t : ChainTask} {now : TimePoint} (hl : LinkInv s) (h : Waits s) (hst : s.goStep t now = some s') :
    Waits s' := by
  rcases goStep_cases hst with ⟨c, hturn, hgo⟩ | ⟨hpc, m, -, rfl⟩ | ⟨hpc, rfl, p, hp, rfl⟩ | ⟨hpc, -, q, -, rfl⟩ |
    ⟨msg, q, hpc, -, -, rfl⟩ | ⟨p, hpc, rfl⟩ | ⟨r, p, rest, q, hpc, -, rfl⟩ | ⟨cmd, p, hpc, hp, rfl⟩ | ⟨hpc, rfl⟩
  · exact h.goto hgo.pc hgo.cmdPath hturn.ne_waitCommand.1 hturn.ne_waitCommand.2
  · exact h.goto (t := t) (c := .exited) rfl rfl (fun he => by rw [hpc] at he; cases he) (fun he => by cases he)
  · have hself : Function.update s.pc .observerIncoming ChainPc.waitCommand .observerIncoming = .waitCommand :=
      Function.update_self ..
    refine ⟨fun _ => hself, fun _ => ?_⟩
    simp only [CommandPath.step] at hp
    split at hp
    · cases hp; exact fun he => by cases he
    · cases hp
  · exact h.goto (t := t) (c := .waiting) rfl rfl (fun he => by rw [hpc] at he; cases he) (fun he => by cases he)
  · exact h.goto (t := t) (c := .got msg) rfl rfl (fun he => by rw [hpc] at he; cases he) (fun he => by cases he)
  · have hw : s.pc t ≠ .waitCommand := fun he => by rw [hpc] at he; cases he
    unfold handleStep
    split
    · exact h.goto (t := t) (c := .sending _) rfl rfl hw (fun he => by cases he)
    · exact h.goto (t := t) (c := .head) rfl rfl hw (fun he => by cases he)
  · exact h.goto (t := t) (c := .notifying r rest) rfl rfl (fun he => by rw [hpc] at he; cases he)
      (fun he => by cases he)
  · obtain rfl := hl.eq_observer hpc rfl
    refine ⟨fun hne => absurd ?_ hne, fun he => ?_⟩
    · simp only [CommandPath.step] at hp
      split at hp
      · cases hp; rfl
      · cases hp
    · have he : Function.update s.pc .observerIncoming (ChainPc.commanded cmd) .observerIncoming = .waitCommand := he
      rw [Function.update_self] at he; cases he
  · exact h.goto (t := t) (c := .sending _) rfl rfl (fun he => by rw [hpc] at he; cases he) (fun he => by cases he)

/-- A thread that runs goes on where it is, whatever the manager does. -/
theorem withManager_pc (hl : LinkInv s) (m : ThreadManager) {t : ChainTask} (ht : s.pc t ≠ .exited) :
    (s.withManager m).pc t = s.pc t := by
  refine if_neg (fun hs => ht (hl.exited t ?_))
  simp only [Bool.and_eq_true, Bool.not_eq_true'] at hs
  exact hs.1

theorem waits_step {a : ChainAct} (hl : LinkInv s) (h : Waits s) (hst : s.step a = some s') : Waits s' := by
  cases a with
  | manager b =>
    simp only [step] at hst
    split at hst
    · obtain ⟨m, -, rfl⟩ := Option.map_eq_some_iff.1 hst
      refine h.same rfl ?_
      by_cases hexit : s.pc .observerIncoming = .exited
      · rw [hexit]
        refine ⟨fun he => ?_, fun he => by cases he⟩
        have he : (if _ then ChainPc.head else s.pc .observerIncoming) = .waitCommand := he
        split at he
        · cases he
        · rw [hexit] at he; cases he
      · rw [withManager_pc hl m hexit]
    · cases hst
  | command b =>
    simp only [step] at hst
    split at hst
    · rename_i hok
      obtain ⟨p, hp, rfl⟩ := Option.map_eq_some_iff.1 hst
      refine ⟨fun hne => h.1 (fun hidle => hne ?_), fun he => ?_⟩
      · exact CommandPath.waiter_idle_step hidle (fun hb => by rw [hb] at hok; cases hok) hp
      · exact CommandPath.waiter_busy_step (h.2 he) (fun hb => by rw [hb] at hok; cases hok) hp
    · cases hst
  | go t now => exact waits_go hl h hst
  | notify t target =>
    simp only [step] at hst
    split at hst
    · rename_i r rest hpc
      obtain ⟨u, hu, rfl⟩ := Option.map_eq_some_iff.1 hst
      obtain ⟨q, -, rfl⟩ := queueStep_eq hu
      exact h.goto (t := t) (c := .sending rest) rfl rfl (fun he => by rw [hpc] at he; cases he) (fun he => by cases he)
    · cases hst
  | wake t =>
    simp only [step] at hst
    split at hst
    · obtain ⟨q, -, rfl⟩ := queueStep_eq hst
      exact h.same rfl Iff.rfl
    · cases hst
  | recheck t timedOut =>
    simp only [step] at hst
    split at hst
    · obtain ⟨q, -, rfl⟩ := queueStep_eq hst
      exact h.same rfl Iff.rfl
    · cases hst

theorem reachable_waits (hs : machine.Reachable s) : Waits s :=
  hs.invariant_of (I := Waits) (fun _ hr => (reachable_flowInv hr).1)
    ⟨fun hne => absurd rfl hne, fun he => by cases he⟩ (fun _ _ _ hl h hst => waits_step hl h hst)

/-! ## How far a thread is from its end -/

/-- The steps before a thread that is told to stop, by where it stands in its loop and in its wait. -/
def place (c : ChainPc) (q : QueuePc Payload) (left : Nat) : Nat :=
  match c, q with
  | .exited, _            => 0
  | .head, _              => 1
  | .got none, _          => 2
  | .got (some _), _      => 7
  | .sending rest, _      => 2 * rest.length + 2
  | .notifying _ rest, _  => 2 * rest.length + 3
  | .waiting, .ret _ _ _  => 8
  | .waiting, .woken _    => 9
  | .waiting, _           => 10
  | .emit, _              => 7
  | .pauseCheck, _        => 8
  | .autoExit, _          => 9
  | .commanded _, _       => 10
  | .waitCommand, _       => 11 + left

def toExit (s : Chain) (t : ChainTask) : Nat := place (s.pc t) ((s.queue t).pc t) s.cmdPath.left

/-- A thread's own steps: those of its loop, of its calls, and its wake-ups. -/
def own (t : ChainTask) : ChainAct → Bool
  | .manager _   => false
  | .command b   => t = .observerIncoming && CommandPath.inWait b
  | .go u _      => u = t
  | .notify u _  => u = t
  | .wake u      => u = t
  | .recheck u _ => u = t

/-- A thread's check after a wake-up before its timeout. -/
def early (t : ChainTask) : ChainAct → Bool
  | .command b          => t = .observerIncoming && CommandPath.early b
  | .recheck u timedOut => u = t && !timedOut
  | _                   => false

theorem handles_length {mc : Int32} {t : ChainTask} {p : Payload} {sends : List (ChainTask × Payload)}
    (h : handles mc t p = some sends) : sends.length ≤ 2 := by
  cases t with
  | observerIncoming => cases h
  | appObserver => cases p <;> first | (obtain rfl := Option.some.inj h; exact Nat.le_refl 2) | cases h
  | processing => cases p <;> first | (obtain rfl := Option.some.inj h; exact Nat.le_succ 1) | cases h
  | transformation => cases p <;> first | (obtain rfl := Option.some.inj h; exact Nat.le_succ 1) | cases h
  | result => cases p <;> first | (obtain rfl := Option.some.inj h; exact Nat.zero_le 2) | cases h

/-- No thread has more than two Sends to make. -/
theorem reachable_outbox (hs : machine.Reachable s) : ∀ t, (s.outbox t).length ≤ 2 := by
  refine hs.invariant_of (I := fun s => ∀ t, (s.outbox t).length ≤ 2) (fun _ hr => (reachable_flowInv hr).1)
    (fun _ => Nat.zero_le 2) (fun u _ v hl h hst => ?_)
  have hupdate : ∀ {t : ChainTask} {sends : List (ChainTask × Payload)}, sends.length ≤ 2 →
      v.outbox = Function.update u.outbox t sends → ∀ w, (v.outbox w).length ≤ 2 := by
    intro t sends hle heq w
    rw [heq, Function.update_apply]
    split
    · exact hle
    · exact h w
  cases moves_of_step hl hst with
  | quiet _ hout => rw [hout]; exact h
  | handled t p rest sends hh _ _ _ hout' => exact hupdate (handles_length hh) hout'
  | discards t p rest _ _ _ _ hout => rw [hout]; exact h
  | emits count now _ _ hout' =>
    have hle : (observerSends count now).length ≤ 2 := Nat.le_refl 2
    exact hupdate hle hout'
  | pushes t r p rest hout hout' =>
    have hle := h t
    rw [hout] at hle
    exact hupdate (Nat.le_of_succ_le hle) hout'

theorem place_le {c : ChainPc} {left : Nat} (hout : (outgoing c).length ≤ 2) (hleft : left ≤ 18)
    (q : QueuePc Payload) : place c q left ≤ 29 := by
  cases c with
  | sending rest =>
    have hout : rest.length ≤ 2 := hout
    show 2 * rest.length + 2 ≤ 29
    omega
  | notifying r rest =>
    have hout : rest.length ≤ 2 := hout
    show 2 * rest.length + 3 ≤ 29
    omega
  | waitCommand =>
    show 11 + left ≤ 29
    omega
  | _ =>
    unfold place
    split <;> first | omega | contradiction

theorem toExit_le (hout : ∀ t, (s.outbox t).length ≤ 2) (t : ChainTask) : s.toExit t ≤ 29 :=
  place_le (hout t) (CommandPath.toReturn_le _ _) _

/-! ## Each of its steps brings it nearer -/

theorem Turns.place_lt {c c' : ChainPc} (h : Turns c c') (q : QueuePc Payload) (left : Nat) :
    place c' q left < place c q left := by
  cases h with
  | timedOut => exact Nat.lt_succ_self 1
  | allSent => exact Nat.lt_succ_self 1
  | commanded cmd => exact Nat.lt_succ_self 9
  | autoExit => exact Nat.lt_succ_self 8
  | paused => show 1 < 8; omega
  | due => exact Nat.lt_succ_self 7

theorem place_left {c : ChainPc} (hc : c ≠ .waitCommand) (q : QueuePc Payload) (l l' : Nat) :
    place c q l = place c q l' := by
  cases c with
  | waitCommand => exact absurd rfl hc
  | waiting => cases q <;> rfl
  | got msg => cases msg <;> rfl
  | _ => rfl

theorem toExit_frame {t : ChainTask} (hpc : s'.pc t = s.pc t) (hq : (s'.queue t).pc t = (s.queue t).pc t)
    (hp : s.pc t = .waitCommand → s'.cmdPath = s.cmdPath) : s'.toExit t = s.toExit t := by
  unfold toExit
  rw [hpc, hq]
  by_cases hw : s.pc t = .waitCommand
  · rw [hp hw]
  · exact place_left hw _ _ _

/-- A step of another thread's loop changes nothing of it. -/
theorem toExit_other (hl : LinkInv s) {t u : ChainTask} {now : TimePoint} (hut : u ≠ t)
    (hst : s.goStep u now = some s') : s'.toExit t = s.toExit t := by
  have hpc : ∀ c, Function.update s.pc u c t = s.pc t := fun c => Function.update_of_ne (Ne.symm hut) _ _
  have hqueue : ∀ q, (Function.update s.queue u q t).pc t = (s.queue t).pc t := fun q => by
    rw [Function.update_of_ne (Ne.symm hut)]
  have hnot : u = .observerIncoming → s.pc t ≠ .waitCommand :=
    fun hu hw => hut (hu.trans (hl.eq_observer hw rfl).symm)
  rcases goStep_cases hst with ⟨c, -, hgo⟩ | ⟨-, m, -, rfl⟩ | ⟨-, hu, p, -, rfl⟩ | ⟨-, -, q, -, rfl⟩ |
    ⟨msg, q, -, -, -, rfl⟩ | ⟨p, -, rfl⟩ | ⟨r, p, rest, q, -, hq, rfl⟩ | ⟨cmd, p, hw, -, rfl⟩ | ⟨-, rfl⟩
  · exact toExit_frame (by rw [hgo.pc, hpc]) (by rw [hgo.queue]) (fun _ => hgo.cmdPath)
  · exact toExit_frame (hpc _) rfl (fun _ => rfl)
  · exact toExit_frame (hpc _) rfl (fun hwt => absurd hwt (hnot hu))
  · exact toExit_frame (hpc _) (hqueue q) (fun _ => rfl)
  · exact toExit_frame (hpc _) (hqueue q) (fun _ => rfl)
  · unfold handleStep
    split
    · exact toExit_frame (hpc _) rfl (fun _ => rfl)
    · exact toExit_frame (hpc _) rfl (fun _ => rfl)
  · refine toExit_frame (hpc _) ?_ (fun _ => rfl)
    show (Function.update s.queue r q t).pc t = (s.queue t).pc t
    simp only [MessageQueue.step] at hq
    split at hq
    · cases hq
      by_cases htr : t = r
      · rw [← htr, Function.update_self]
        exact Function.update_of_ne (Ne.symm hut) _ _
      · rw [Function.update_of_ne htr]
    · cases hq
  · exact toExit_frame (hpc _) rfl (fun hwt => absurd hwt (hnot (hl.eq_observer hw rfl)))
  · exact toExit_frame (hpc _) rfl (fun _ => rfl)

/-- **A step of its own loop.** -/
theorem toExit_go {t : ChainTask} {now : TimePoint} (hstop : s.stopRequested t = true)
    (hst : s.goStep t now = some s') : s'.toExit t < s.toExit t := by
  have hto : ∀ {u : Chain} {c : ChainPc} {n : Nat}, s.toExit t = n → u.pc = Function.update s.pc t c →
      place c ((u.queue t).pc t) u.cmdPath.left < n → u.toExit t < s.toExit t := by
    intro u c n hn hpc hlt
    rw [hn]
    unfold toExit
    rw [hpc, Function.update_self]
    exact hlt
  have hfrom : ∀ {c : ChainPc}, s.pc t = c → s.toExit t = place c ((s.queue t).pc t) s.cmdPath.left := by
    rintro c rfl
    rfl
  by_cases hhead : s.pc t = .head
  · simp only [goStep, hhead, if_pos hstop] at hst
    obtain ⟨m, -, rfl⟩ := Option.map_eq_some_iff.1 hst
    exact hto (c := .exited) (hfrom hhead) rfl Nat.zero_lt_one
  · rcases goStep_cases hst with ⟨c, hturn, hgo⟩ | ⟨hpc, -⟩ | ⟨hpc, -⟩ | ⟨hpc, -⟩ | ⟨msg, q, hpc, hres, hq, rfl⟩ |
      ⟨p, hpc, rfl⟩ | ⟨r, p, rest, q, hpc, hq, rfl⟩ | ⟨cmd, p, hpc, -, rfl⟩ | ⟨hpc, rfl⟩
    · refine hto rfl hgo.pc ?_
      rw [hgo.queue, hgo.cmdPath]
      exact hturn.place_lt _ _
    · exact absurd hpc hhead
    · exact absurd hpc hhead
    · exact absurd hpc hhead
    · simp only [MessageQueue.step] at hq
      split at hq
      · rename_i x msg' seen hret
        refine hto (c := .got msg) (n := 8) ?_ rfl ?_
        · rw [hfrom hpc, hret]; rfl
        · cases msg with
          | none => show 2 < 8; omega
          | some p => exact Nat.lt_succ_self 7
      · cases hq
    · unfold handleStep
      split
      · rename_i sends hh
        have hlen := handles_length hh
        refine hto (c := .sending sends) (hfrom hpc) rfl ?_
        show 2 * sends.length + 2 < 7
        omega
      · refine hto (c := .head) (hfrom hpc) rfl ?_
        show 1 < 7
        omega
    · refine hto (c := .notifying r rest) (hfrom hpc) rfl ?_
      show 2 * rest.length + 3 < 2 * ((r, p) :: rest).length + 2
      rw [List.length_cons]
      omega
    · refine hto (c := .commanded cmd) (hfrom hpc) rfl ?_
      show 10 < 11 + s.cmdPath.left
      omega
    · refine hto (c := .sending (observerSends (s.count + 1) now)) (hfrom hpc) rfl ?_
      show 6 < 7
      omega

/-- A wake-up, by a notification or not. -/
theorem place_woken_le (c : ChainPc) (x : PopCall) (left : Nat) :
    place c (.woken x) left ≤ place c (.blocked x) left := by
  cases c with
  | waiting => exact Nat.le_succ 9
  | got msg => cases msg <;> exact Nat.le_refl _
  | _ => exact Nat.le_refl _

theorem toExit_notify {t u r : ChainTask} {target : Option ChainTask} {rest : List (ChainTask × Payload)}
    {q : MessageQueue ChainTask Payload} (hpc : s.pc u = .notifying r rest)
    (hq : (s.queue r).step (.notifyOne u target) = some q)
    (hs : s' = ({ s with queue := Function.update s.queue r q } : Chain).setPc u (.sending rest)) :
    (decide (u = t)).toNat + s'.toExit t ≤ s.toExit t := by
  subst hs
  by_cases hut : u = t
  · subst hut
    rw [decide_eq_true rfl]
    unfold toExit setPc
    rw [hpc]
    show 1 + place (Function.update s.pc u (.sending rest) u) _ _ ≤ 2 * rest.length + 3
    rw [Function.update_self]
    show 1 + (2 * rest.length + 2) ≤ 2 * rest.length + 3
    omega
  · rw [decide_eq_false hut]
    have hpc' : Function.update s.pc u (.sending rest) t = s.pc t := Function.update_of_ne (Ne.symm hut) _ _
    have hself : ∀ p, Function.update (s.queue r).pc u p t = (s.queue r).pc t :=
      fun p => Function.update_of_ne (Ne.symm hut) _ _
    by_cases htr : t = r
    · subst htr
      have hle : place (s.pc t) (q.pc t) s.cmdPath.left ≤ s.toExit t := by
        cases target with
        | none =>
          simp only [MessageQueue.step] at hq
          split at hq
          · split at hq
            · cases hq
              unfold toExit
              rw [← hself]
              exact Nat.le_refl _
            · cases hq
          · cases hq
        | some j =>
          simp only [MessageQueue.step] at hq
          split at hq
          · rename_i x hnotify hblocked
            cases hq
            unfold toExit
            by_cases htj : t = j
            · subst htj
              rw [hblocked]
              show place (s.pc t) (Function.update (Function.update (s.queue t).pc u .idle) t (.woken x) t) _ ≤ _
              rw [Function.update_self]
              exact place_woken_le _ x _
            · show place (s.pc t) (Function.update (Function.update (s.queue t).pc u .idle) j (.woken x) t) _ ≤ _
              rw [Function.update_of_ne htj, hself]
          · cases hq
      unfold toExit setPc
      show 0 + place (Function.update s.pc u (.sending rest) t) ((Function.update s.queue t q t).pc t) _ ≤ _
      rw [hpc', Function.update_self, Nat.zero_add]
      exact hle
    · refine Nat.le_of_eq ((Nat.zero_add _).trans (toExit_frame hpc' ?_ (fun _ => rfl)))
      show (Function.update s.queue r q t).pc t = (s.queue t).pc t
      rw [Function.update_of_ne htr]

/-- The steps of a thread's in `wait_pop_for` are those of an observer that waits there. -/
theorem own_command_waits {t : ChainTask} {b : CommandAct ObserverCommand} {p : CommandPath ObserverCommand}
    (hw : Waits s) (hown : own t (.command b) = true) (hp : s.cmdPath.step b = some p) : s.pc t = .waitCommand := by
  obtain ⟨ht, hin⟩ := (Bool.and_eq_true _ _).mp hown
  obtain rfl : t = .observerIncoming := of_decide_eq_true ht
  by_contra hwait
  have hidle : s.cmdPath.waiter = .idle := not_not.1 (fun hne => hwait (hw.1 hne))
  cases b <;> first | cases hin; done | simp [CommandPath.step, hidle] at hp

/-- A step of the command path's. -/
theorem toExit_command {t : ChainTask} {b : CommandAct ObserverCommand} {p : CommandPath ObserverCommand}
    (hl : LinkInv s) (hw : Waits s) (hf : CommandPath.WaiterFits s.cmdPath) (hok : s.commandAllowed b = true)
    (hp : s.cmdPath.step b = some p) (hs : s' = { s with cmdPath := p }) :
    (own t (.command b)).toNat + s'.toExit t ≤ 6 * (early t (.command b)).toNat + s.toExit t := by
  subst hs
  by_cases hwait : s.pc t = .waitCommand
  · obtain rfl := hl.eq_observer hwait rfl
    have hle := CommandPath.left_step hf (fun hb => by rw [hb] at hok; cases hok)
      (fun hb => by rw [hb] at hok; cases hok) hp
    unfold toExit
    show (CommandPath.inWait b).toNat + place (s.pc .observerIncoming) _ p.left ≤
      6 * (CommandPath.early b).toNat + place (s.pc .observerIncoming) _ s.cmdPath.left
    rw [hwait]
    show (CommandPath.inWait b).toNat + (11 + p.left) ≤ 6 * (CommandPath.early b).toNat + (11 + s.cmdPath.left)
    omega
  · have hsame : ({ s with cmdPath := p } : Chain).toExit t = s.toExit t :=
      toExit_frame rfl rfl (fun he => absurd he hwait)
    have hnot : own t (.command b) = false := by
      by_contra hown
      exact hwait (own_command_waits hw (by simpa using hown) hp)
    rw [hnot, hsame]
    exact Nat.le_trans (Nat.le_of_eq (Nat.zero_add _)) (Nat.le_add_left _ _)

/-- A thread's check after a wake-up sends it to its return, or back to sleep if its timeout is to come. -/
theorem toExit_recheck {t : ChainTask} {timedOut : Bool} {q : MessageQueue ChainTask Payload} (hy : Synced s)
    (hpc : s.pc t = .waiting) (hq : (s.queue t).step (.recheck t timedOut) = some q)
    (hs : s' = { s with queue := Function.update s.queue t q }) :
    1 + s'.toExit t ≤ 6 * (!timedOut).toNat + s.toExit t := by
  subst hs
  simp only [MessageQueue.step] at hq
  split at hq
  · rename_i x hwoken
    cases hq
    obtain ⟨-, -, hin⟩ := hy.waiting hwoken (fun he => by cases he) (fun he => by cases he)
    unfold toExit
    show 1 + place (s.pc t) ((Function.update s.queue t _ t).pc t) _ ≤ _
    rw [Function.update_self, hpc, hwoken]
    cases x with
    | waitFor =>
      unfold MessageQueue.check
      split
      · cases timedOut with
        | true =>
          show 1 + place .waiting (Function.update (s.queue t).pc t _ t) _ ≤ 0 + 9
          rw [Function.update_self]
          exact Nat.le_refl 9
        | false =>
          show 1 + place .waiting (Function.update (s.queue t).pc t _ t) _ ≤ 6 + 9
          rw [Function.update_self]
          show 11 ≤ 15
          omega
      · show 1 + place .waiting (Function.update (s.queue t).pc t _ t) _ ≤ _ + 9
        rw [Function.update_self]
        exact Nat.le_add_left 9 _
    | tryPop => cases hin
    | wait => cases hin
  · cases hq

/-- **A step of its own brings a thread that is told to stop nearer to its end**, and no other takes it back, but for a
check before its timeout. -/
theorem toExit_step {a : ChainAct} {t : ChainTask} (hl : LinkInv s) (hy : Synced s) (hw : Waits s)
    (hf : CommandPath.WaiterFits s.cmdPath) (hlive : s.pc t ≠ .exited) (hstop : s.stopRequested t = true)
    (hst : s.step a = some s') : (own t a).toNat + s'.toExit t ≤ 6 * (early t a).toNat + s.toExit t := by
  -- a step of another thread's at its own queue
  have hother : ∀ {u : ChainTask} {q : MessageQueue ChainTask Payload}, u ≠ t →
      s' = { s with queue := Function.update s.queue u q } → s'.toExit t = s.toExit t := by
    rintro u q hut rfl
    refine toExit_frame rfl ?_ (fun _ => rfl)
    show (Function.update s.queue u q t).pc t = (s.queue t).pc t
    rw [Function.update_of_ne (Ne.symm hut)]
  cases a with
  | manager b =>
    simp only [step] at hst
    split at hst
    · obtain ⟨m, -, rfl⟩ := Option.map_eq_some_iff.1 hst
      exact Nat.le_of_eq (congrArg (0 + ·) (toExit_frame (withManager_pc hl m hlive) rfl (fun _ => rfl)))
    · cases hst
  | command b =>
    simp only [step] at hst
    split at hst
    · rename_i hok
      obtain ⟨p, hp, heq⟩ := Option.map_eq_some_iff.1 hst
      exact toExit_command hl hw hf hok hp heq.symm
    · cases hst
  | go u now =>
    show (decide (u = t)).toNat + s'.toExit t ≤ 0 + s.toExit t
    by_cases hut : u = t
    · subst hut
      have hlt := toExit_go hstop hst
      rw [decide_eq_true rfl]
      show 1 + s'.toExit u ≤ 0 + s.toExit u
      omega
    · rw [decide_eq_false hut, toExit_other hl hut hst]
      exact Nat.le_refl _
  | notify u target =>
    show (decide (u = t)).toNat + s'.toExit t ≤ 0 + s.toExit t
    simp only [step] at hst
    split at hst
    · rename_i r rest hpc
      obtain ⟨v, hv, heq⟩ := Option.map_eq_some_iff.1 hst
      obtain ⟨q, hq, rfl⟩ := queueStep_eq hv
      rw [Nat.zero_add]
      exact toExit_notify hpc hq heq.symm
    · cases hst
  | wake u =>
    show (decide (u = t)).toNat + s'.toExit t ≤ 0 + s.toExit t
    simp only [step] at hst
    split at hst
    · rename_i hpc
      obtain ⟨q, hq, heq⟩ := queueStep_eq hst
      by_cases hut : u = t
      · subst hut
        simp only [MessageQueue.step] at hq
        split at hq
        · rename_i x hblocked
          cases hq
          subst heq
          unfold toExit
          rw [decide_eq_true rfl]
          show 1 + place (s.pc u) ((Function.update s.queue u _ u).pc u) _ ≤ _
          rw [Function.update_self, hpc, hblocked]
          show 1 + place .waiting (Function.update (s.queue u).pc u _ u) _ ≤ 0 + 10
          rw [Function.update_self]
          exact Nat.le_refl 10
        · cases hq
      · rw [decide_eq_false hut, hother hut heq]
        exact Nat.le_refl _
    · cases hst
  | recheck u timedOut =>
    show (decide (u = t)).toNat + s'.toExit t ≤ 6 * (decide (u = t) && !timedOut).toNat + s.toExit t
    simp only [step] at hst
    split at hst
    · rename_i hpc
      obtain ⟨q, hq, heq⟩ := queueStep_eq hst
      by_cases hut : u = t
      · subst hut
        rw [decide_eq_true rfl, Bool.true_and]
        exact toExit_recheck hy hpc hq heq
      · rw [decide_eq_false hut, hother hut heq]
        exact Nat.le_refl _
    · cases hst

/-! ## There is one until it has ended -/

theorem running_of_live (hl : LinkInv s) {t : ChainTask} (hlive : s.pc t ≠ .exited) :
    s.manager.running (taskId t) = true := by
  by_contra hr
  exact hlive (hl.exited t (by simpa using hr))

/-- Inside `wait_for`, a thread returns, or wakes up at its timeout. -/
theorem exists_own_waiting (hy : Synced s) {t : ChainTask} (hpc : s.pc t = .waiting) :
    ∃ a, own t a = true ∧ early t a = false ∧ (s.step a).isSome = true := by
  obtain ⟨a, ⟨rfl | rfl, -⟩ | rfl, hsome⟩ := exists_waitStep hy hpc true
  · exact ⟨.wake t, decide_eq_true rfl, rfl, hsome⟩
  · exact ⟨.recheck t true, decide_eq_true rfl, Bool.and_false _, hsome⟩
  · exact ⟨.go t 0, decide_eq_true rfl, rfl, hsome⟩

/-- Inside `wait_pop_for`, the observer returns, or wakes up at its timeout. -/
theorem exists_own_waitCommand (hr : Spsc.Inv 8 s.cmdPath.ring) (hw : Waits s)
    (hf : CommandPath.WaiterFits s.cmdPath) (hpc : s.pc .observerIncoming = .waitCommand) :
    ∃ a, own .observerIncoming a = true ∧ early .observerIncoming a = false ∧ (s.step a).isSome = true := by
  by_cases hret : ∃ out, s.cmdPath.waiter = .ret out
  · obtain ⟨out, hret⟩ := hret
    refine ⟨.go .observerIncoming 0, rfl, rfl, ?_⟩
    simp only [step, goStep, hpc, hret, CommandPath.step, Option.map_some, Option.isSome_some]
  · obtain ⟨b, hin, hearly, -, hsome⟩ := CommandPath.exists_inWait hr hf (hw.2 hpc) (not_exists.1 hret)
    obtain ⟨p, hp⟩ := Option.isSome_iff_exists.1 hsome
    have hok : s.commandAllowed b = true := by
      cases b <;> first | rfl | cases hin
    refine ⟨.command b, hin, ?_, ?_⟩
    · cases b with
      | relock timedOut =>
        cases timedOut with
        | true => rfl
        | false => exact absurd rfl hearly
      | _ => rfl
    · simp only [step, hok, if_true, hp, Option.map_some, Option.isSome_some]

/-- **Wherever a thread stands that is told to stop, it can go on by itself.** -/
theorem exists_own (hl : LinkInv s) (hy : Synced s) (hr : Spsc.Inv 8 s.cmdPath.ring) (hw : Waits s)
    (hf : CommandPath.WaiterFits s.cmdPath) {t : ChainTask} (hlive : s.pc t ≠ .exited)
    (hstop : s.stopRequested t = true) : ∃ a, own t a = true ∧ early t a = false ∧ (s.step a).isSome = true := by
  have hgo : (s.goStep t 0).isSome = true → ∃ a, own t a = true ∧ early t a = false ∧ (s.step a).isSome = true :=
    fun hsome => ⟨.go t 0, decide_eq_true rfl, rfl, hsome⟩
  cases hpc : s.pc t with
  | exited => exact absurd hpc hlive
  | head =>
    refine hgo ?_
    simp only [goStep, hpc, if_pos hstop, ThreadManager.step, if_pos (running_of_live hl hlive), Option.map_some,
      Option.isSome_some]
  | waiting => exact exists_own_waiting hy hpc
  | notifying r rest =>
    obtain ⟨target, hst⟩ := exists_notify hy hpc
    exact ⟨.notify t target, decide_eq_true rfl, rfl, hst⟩
  | waitCommand =>
    obtain rfl := hl.eq_observer hpc rfl
    exact exists_own_waitCommand hr hw hf hpc
  | _ => exact hgo (exists_go hy (by rw [hpc]; rfl))

/-! ## The stop -/

/-- A thread that is told to stop stays told until it has ended. -/
theorem stopRequested_step {a : ChainAct} {t : ChainTask} (hs : machine.Reachable s) (hlive : s.pc t ≠ .exited)
    (hstop : s.stopRequested t = true) (hst : s.step a = some s') : s'.stopRequested t = true := by
  have hrunning := running_of_live (reachable_flowInv hs).1 hlive
  rcases (partSteps_of_step hst).manager with heq | ⟨b, hb⟩
  · unfold stopRequested
    rw [heq]
    exact hstop
  · exact ThreadManager.told_step (ThreadManager.reachable_tokensMade (reachable_manager hs)) hrunning hstop hb

/-- **A thread that is told to stop ends, in whatever order the threads go on.**  Until it has, it can go on by itself,
and it takes at most 29 steps of its own, and six more for each check it makes before its timeout. -/
theorem stop_honoured {s s' : Chain} (hs : machine.Reachable s) {t : ChainTask} (hstop : s.stopRequested t = true)
    (as : List ChainAct) (hrun : (machine.only (fun u _ => u.pc t ≠ .exited)).runFrom s as = some s') :
    as.countP (own t) ≤ 29 + 6 * as.countP (early t) ∧
    (s'.pc t = .exited ∨ ∃ a, own t a = true ∧ early t a = false ∧ (s'.step a).isSome = true) := by
  have hinit : ({} : SpScRingBuffer ObserverCommand).init 8 = (CommandPath.cmdBuffer, true) := rfl
  obtain ⟨⟨hend, hstop'⟩, hle⟩ := Machine.countP_le_of_measure
    (P := fun u => machine.Reachable u ∧ u.stopRequested t = true) (fun u => u.toExit t) (own t) (early t) 6
    (fun u a v hu hst => by
      obtain ⟨hlive, hst⟩ := Machine.only_step.1 hst
      have hlive : u.pc t ≠ .exited := of_decide_eq_true hlive
      have hstep := toExit_step (reachable_flowInv hu.1).1 (reachable_synced hu.1) (reachable_waits hu.1)
        (CommandPath.reachable_waiterFits (reachable_cmdPath hu.1)) hlive hu.2 hst
      exact ⟨⟨.step a hu.1 hst, stopRequested_step hu.1 hlive hu.2 hst⟩, hstep⟩) as ⟨hs, hstop⟩ hrun
  refine ⟨?_, ?_⟩
  · have hbound := toExit_le (reachable_outbox hs) t
    omega
  · by_cases hlive : s'.pc t = .exited
    · exact .inl hlive
    · have hring := Spsc.reachable_inv hinit (CommandPath.reachable_ring (reachable_cmdPath hend))
      exact .inr (exists_own (reachable_flowInv hend).1 (reachable_synced hend) hring (reachable_waits hend)
        (CommandPath.reachable_waiterFits (reachable_cmdPath hend)) hlive hstop')

/-- The observer, asleep in `wait_pop_for`, is woken early once, sleeps on to its timeout, sends one more event and
ends. -/
theorem stop_honoured_observer : ∃ (s s' : Chain) (as : List ChainAct), s.cmdPath.waiter = .blocked ∧
    s'.pc .observerIncoming = .exited ∧ as.countP (own .observerIncoming) = 22 ∧
    as.countP (early .observerIncoming) = 1 ∧
    as.countP (own .observerIncoming) ≤ 29 + 6 * as.countP (early .observerIncoming) := by
  obtain ⟨s, hs⟩ : ∃ s, machine.runFrom machine.init
      [.manager .initTestChain, .manager (.start true), .manager (.start true), .manager (.start true),
       .manager (.start true), .manager (.start true), .manager .done,
       .go .observerIncoming 0, .command .lock, .command (.waiter .consumer), .command (.waiter (.consumerLoads 0)),
       .command .checked, .command .block, .manager .stopAllThreads] = some s := ⟨_, rfl⟩
  obtain ⟨s', hrun⟩ : ∃ s', (machine.only (fun u _ => u.pc .observerIncoming ≠ .exited)).runFrom s
      [.command .wake, .command (.relock false), .command (.waiter .consumer), .command (.waiter (.consumerLoads 0)),
       .command .checked, .command .block, .command .wake, .command (.relock true), .command (.waiter .consumer),
       .command (.waiter (.consumerLoads 0)), .command .checked,
       .go .observerIncoming 0, .go .observerIncoming 0, .go .observerIncoming 0, .go .observerIncoming 0,
       .go .observerIncoming 0, .go .observerIncoming 0, .notify .observerIncoming none, .go .observerIncoming 0,
       .notify .observerIncoming none, .go .observerIncoming 0, .go .observerIncoming 0] = some s' := by
    cases hs; exact ⟨_, rfl⟩
  have hstop : s.stopRequested .observerIncoming = true := by cases hs; rfl
  have hblocked : s.cmdPath.waiter = .blocked := by cases hs; rfl
  have hexit : s'.pc .observerIncoming = .exited := by
    cases hs
    cases hrun
    rfl
  obtain ⟨hle, -⟩ := stop_honoured (Machine.reachable_of_run _ hs) hstop _ hrun
  exact ⟨s, s', _, hblocked, hexit, rfl, rfl, hle⟩

end Chain
end ThreadMessaging

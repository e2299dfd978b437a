import ThreadMessaging.Chain
/-!
# The FileEvents in the chain

Every FileEvent the observer has sent is in one place: done with, or in the hand or the queue of one task, and in the
order it was sent (`chain_conserves`).  A step hands messages over in one of five ways (`Moves`), and each of them keeps
the order; a stop only ends a loop at its head, where a task's hand is empty.
-/
namespace ThreadMessaging
namespace Chain

/-- The message a thread has popped and not yet looked at. -/
def holding (c : ChainPc) (q : QueuePc Payload) : List Payload :=
  match c with
  | .waiting => (MessageQueue.result q).toList
  | .got msg => msg.toList
  | _        => []

/-- The Sends a thread has yet to make in this iteration. -/
def outgoing (c : ChainPc) : List (ChainTask × Payload) :=
  match c with
  | .sending rest     => rest
  | .notifying _ rest => rest
  | _                 => []

/-- What a thread has been sent and not yet looked at, the oldest first. -/
def inbox (s : Chain) (t : ChainTask) : List Payload :=
  holding (s.pc t) ((s.queue t).pc t) ++ (s.queue t).contents

def outbox (s : Chain) (t : ChainTask) : List (ChainTask × Payload) := outgoing (s.pc t)

/-- **What a step can do with the messages.** -/
inductive Moves (s s' : Chain) : Prop
  | quiet (hin : s'.inbox = s.inbox) (hout : s'.outbox = s.outbox) (hsent : s'.sent = s.sent)
      (hfin : s'.finished = s.finished) (hdis : s'.discarded = s.discarded)
  | handled (t : ChainTask) (p : Payload) (rest : List Payload) (sends : List (ChainTask × Payload))
      (h : handles s.mirrorCounter t p = some sends) (hin : s.inbox t = p :: rest)
      (hin' : s'.inbox = Function.update s.inbox t rest) (hout : s.outbox t = [])
      (hout' : s'.outbox = Function.update s.outbox t sends) (hsent : s'.sent = s.sent)
      (hfin : s'.finished = if t = .result then s.finished ++ p.carried else s.finished)
      (hdis : s'.discarded = s.discarded)
  | discards (t : ChainTask) (p : Payload) (rest : List Payload) (h : handles s.mirrorCounter t p = none)
      (ht : t ≠ .observerIncoming) (hin : s.inbox t = p :: rest) (hin' : s'.inbox = Function.update s.inbox t rest)
      (hout : s'.outbox = s.outbox) (hsent : s'.sent = s.sent) (hfin : s'.finished = s.finished)
      (hdis : s'.discarded = s.discarded ++ [(t, p)])
  | emits (count : Int32) (now : TimePoint) (hin : s'.inbox = s.inbox) (hout : s.outbox .observerIncoming = [])
      (hout' : s'.outbox = Function.update s.outbox .observerIncoming (observerSends count now))
      (hsent : s'.sent = s.sent) (hfin : s'.finished = s.finished) (hdis : s'.discarded = s.discarded)
  | pushes (t r : ChainTask) (p : Payload) (rest : List (ChainTask × Payload)) (hout : s.outbox t = (r, p) :: rest)
      (hout' : s'.outbox = Function.update s.outbox t rest)
      (hin' : s'.inbox = Function.update s.inbox r (s.inbox r ++ [p]))
      (hsent : s'.sent = if t = .observerIncoming then s.sent ++ p.carried else s.sent)
      (hfin : s'.finished = s.finished) (hdis : s'.discarded = s.discarded)

/-- The observer waits for commands, the others for messages. -/
def placeOf (t : ChainTask) : ChainPc → Bool
  | .waiting     => t ≠ .observerIncoming
  | .got _       => t ≠ .observerIncoming
  | .waitCommand => t = .observerIncoming
  | .commanded _ => t = .observerIncoming
  | .autoExit    => t = .observerIncoming
  | .pauseCheck  => t = .observerIncoming
  | .emit        => t = .observerIncoming
  | _            => true

/-- A thread that the manager knows not to run has exited; the others are where they can be. -/
structure LinkInv (s : Chain) : Prop where
  exited : ∀ t, s.manager.running (taskId t) = false → s.pc t = .exited
  places : ∀ t, placeOf t (s.pc t) = true

/-! ## What the steps of the parts do -/

theorem holding_congr (c : ChainPc) {q q' : QueuePc Payload} (h : MessageQueue.result q' = MessageQueue.result q) :
    holding c q' = holding c q := by
  unfold holding
  rw [h]

theorem Moves.of_same {s s' : Chain} (hc : ∀ v, (s'.queue v).contents = (s.queue v).contents)
    (hh : ∀ v, holding (s'.pc v) ((s'.queue v).pc v) = holding (s.pc v) ((s.queue v).pc v))
    (ho : ∀ v, outgoing (s'.pc v) = outgoing (s.pc v)) (hsent : s'.sent = s.sent) (hfin : s'.finished = s.finished)
    (hdis : s'.discarded = s.discarded) : Moves s s' := by
  refine .quiet (funext fun v => ?_) (funext ho) hsent hfin hdis
  unfold inbox
  rw [hh, hc]

theorem Moves.of_goto {s s' : Chain} {t : ChainTask} {c : ChainPc} (hpc : s'.pc = Function.update s.pc t c)
    (hq : s'.queue = s.queue) (hold : ∀ q, holding c q = holding (s.pc t) q) (hout : outgoing c = outgoing (s.pc t))
    (hsent : s'.sent = s.sent) (hfin : s'.finished = s.finished) (hdis : s'.discarded = s.discarded) : Moves s s' := by
  refine .of_same (fun v => by rw [hq]) (fun v => ?_) (fun v => ?_) hsent hfin hdis
  · rw [hpc, hq]
    exact apply_update_of_eq (fun v c => holding c ((s.queue v).pc v)) (hold _) v
  · rw [hpc]
    exact apply_update_of_eq (fun _ c => outgoing c) hout v

theorem Moves.of_queue {s s' : Chain} {r : ChainTask} {q : MessageQueue ChainTask Payload}
    (hq : s'.queue = Function.update s.queue r q)
    (hflow : q.contents = (s.queue r).contents ∧
      ∀ j, MessageQueue.result (q.pc j) = MessageQueue.result ((s.queue r).pc j))
    (hold : ∀ v q, holding (s'.pc v) q = holding (s.pc v) q) (hout : ∀ v, outgoing (s'.pc v) = outgoing (s.pc v))
    (hsent : s'.sent = s.sent) (hfin : s'.finished = s.finished) (hdis : s'.discarded = s.discarded) : Moves s s' := by
  refine .of_same (fun v => ?_) (fun v => ?_) hout hsent hfin hdis
  · rw [hq]
    exact apply_update_of_eq (fun _ (q : MessageQueue ChainTask Payload) => q.contents) hflow.1 v
  · rw [hold, hq]
    exact apply_update_of_eq (fun v (q : MessageQueue ChainTask Payload) => holding (s.pc v) (q.pc v))
      (holding_congr _ (hflow.2 r)) v

/-- **A check of a thread's own queue**: what it pops goes from the queue into its hand. -/
theorem Moves.of_check {s s' : Chain} {t : ChainTask} {c : PopCall} {timedOut : Bool}
    (hq : s'.queue = Function.update s.queue t ((s.queue t).check t c timedOut))
    (hpc : s'.pc = Function.update s.pc t .waiting)
    (hold : holding (s.pc t) ((s.queue t).pc t) = []) (hout : outgoing (s.pc t) = [])
    (hsent : s'.sent = s.sent) (hfin : s'.finished = s.finished) (hdis : s'.discarded = s.discarded) : Moves s s' := by
  refine .quiet (funext fun v => ?_) (funext fun v => ?_) hsent hfin hdis
  · unfold inbox
    rw [hq, hpc]
    by_cases hv : v = t
    · rw [hv, Function.update_self, Function.update_self, hold, List.nil_append]
      exact ((s.queue t).check_flow t c timedOut).1
    · rw [Function.update_of_ne hv, Function.update_of_ne hv]
  · unfold outbox
    rw [hpc]
    exact apply_update_of_eq (fun _ c => outgoing c) (x := .waiting) hout.symm v

/-! ## What the steps of the chain do -/

theorem Turns.holding {c c' : ChainPc} (h : Turns c c') (q : QueuePc Payload) :
    Chain.holding c' q = Chain.holding c q := by
  cases h <;> rfl

theorem Turns.outgoing {c c' : ChainPc} (h : Turns c c') : Chain.outgoing c' = Chain.outgoing c := by
  cases h <;> rfl

theorem Turns.placeOf {c c' : ChainPc} (h : Turns c c') {t : ChainTask} (hp : Chain.placeOf t c = true) :
    Chain.placeOf t c' = true := by
  cases h <;> first | rfl | exact hp

theorem Turns.ne_exited {c c' : ChainPc} (h : Turns c c') : c ≠ .exited := by
  cases h <;> exact nofun

theorem inbox_of_pc {s s' : Chain} {t : ChainTask} {c : ChainPc} (hpc : s'.pc = Function.update s.pc t c)
    (hq : s'.queue = s.queue) :
    s'.inbox = Function.update s.inbox t (holding c ((s.queue t).pc t) ++ (s.queue t).contents) := by
  funext v
  unfold inbox
  rw [hpc, hq]
  by_cases hv : v = t
  · rw [hv, Function.update_self, Function.update_self]
  · rw [Function.update_of_ne hv, Function.update_of_ne hv]

theorem outbox_of_pc {s s' : Chain} {t : ChainTask} {c : ChainPc} (hpc : s'.pc = Function.update s.pc t c) :
    s'.outbox = Function.update s.outbox t (outgoing c) := by
  funext v
  unfold outbox
  rw [hpc]
  by_cases hv : v = t
  · rw [hv, Function.update_self, Function.update_self]
  · rw [Function.update_of_ne hv, Function.update_of_ne hv]

theorem Moves.handleStep {s : Chain} {t : ChainTask} {p : Payload} (ht : t ≠ .observerIncoming)
    (hpc : s.pc t = .got (some p)) : Moves s (s.handleStep t p) := by
  have hin : s.inbox t = p :: (s.queue t).contents := by
    unfold inbox
    rw [hpc]; rfl
  have hout : s.outbox t = [] := by
    unfold outbox
    rw [hpc]; rfl
  unfold Chain.handleStep
  cases h : handles s.mirrorCounter t p with
  | some sends =>
    exact .handled t p (s.queue t).contents sends h hin (inbox_of_pc (c := .sending sends) rfl rfl) hout
      (outbox_of_pc (c := .sending sends) rfl) rfl rfl rfl
  | none =>
    refine .discards t p (s.queue t).contents h ht hin (inbox_of_pc (c := .head) rfl rfl) ?_ rfl rfl rfl
    rw [outbox_of_pc (s := s) (t := t) (c := .head) rfl]
    exact (congrArg _ hout.symm).trans (Function.update_eq_self t s.outbox)

theorem Moves.push {s s' : Chain} {t r : ChainTask} {p : Payload} {rest : List (ChainTask × Payload)}
    {q : MessageQueue ChainTask Payload} (hpc : s.pc t = .sending ((r, p) :: rest))
    (hst : (s.queue r).step (.push t (some p)) = some q) (hpc' : s'.pc = Function.update s.pc t (.notifying r rest))
    (hq : s'.queue = Function.update s.queue r q)
    (hsent : s'.sent = if t = .observerIncoming then s.sent ++ p.carried else s.sent)
    (hfin : s'.finished = s.finished) (hdis : s'.discarded = s.discarded) : Moves s s' := by
  obtain ⟨hcont, hres⟩ := MessageQueue.push_flow hst
  have hold : ∀ v q, holding (s'.pc v) q = holding (s.pc v) q := by
    intro v q
    rw [hpc']
    exact apply_update_of_eq (fun _ c => holding c q) (by rw [hpc]; rfl) v
  refine .pushes t r p rest (by unfold outbox; rw [hpc]; rfl) (outbox_of_pc hpc') (funext fun v => ?_) hsent hfin hdis
  by_cases hv : v = r
  · rw [hv, Function.update_self]
    unfold inbox
    rw [hold, hq, Function.update_self, hcont, holding_congr _ (hres r), List.append_assoc]
    rfl
  · rw [Function.update_of_ne hv]
    unfold inbox
    rw [hold, hq, Function.update_of_ne hv]

theorem Moves.emit {s s' : Chain} {count : Int32} {now : TimePoint} (hpc : s.pc .observerIncoming = .emit)
    (hpc' : s'.pc = Function.update s.pc .observerIncoming (.sending (observerSends count now)))
    (hq : s'.queue = s.queue) (hsent : s'.sent = s.sent) (hfin : s'.finished = s.finished)
    (hdis : s'.discarded = s.discarded) : Moves s s' := by
  refine .emits count now ?_ (by unfold outbox; rw [hpc]; rfl) (outbox_of_pc hpc') hsent hfin hdis
  rw [inbox_of_pc hpc' hq]
  refine Eq.trans ?_ (Function.update_eq_self .observerIncoming s.inbox)
  unfold inbox
  rw [hpc]; rfl

theorem Moves.ret {s : Chain} {t : ChainTask} {msg : Option Payload} {q : MessageQueue ChainTask Payload}
    (hpc : s.pc t = .waiting) (hres : MessageQueue.result ((s.queue t).pc t) = msg)
    (hst : (s.queue t).step (.ret t) = some q) :
    Moves s (({ s with queue := Function.update s.queue t q } : Chain).setPc t (.got msg)) := by
  obtain ⟨hcont, -⟩ := MessageQueue.ret_flow hst
  refine .of_same (fun v => ?_) (fun v => ?_) (fun v => ?_) rfl rfl rfl
  · exact apply_update_of_eq (fun _ (q : MessageQueue ChainTask Payload) => q.contents) hcont v
  · show holding (Function.update s.pc t _ v) ((Function.update s.queue t q v).pc v) = _
    by_cases hv : v = t
    · rw [hv, Function.update_self, Function.update_self, hpc, ← hres]; rfl
    · rw [Function.update_of_ne hv, Function.update_of_ne hv]
  · exact apply_update_of_eq (fun _ c => outgoing c) (by rw [hpc]; rfl) v

theorem Moves.go {s s' : Chain} {t : ChainTask} {now : TimePoint} (hl : LinkInv s) (hst : s.goStep t now = some s') :
    Moves s s' := by
  have hplace := hl.places t
  rcases goStep_cases hst with ⟨c, hturn, hgo⟩ | ⟨hpc, m, -, rfl⟩ | ⟨hpc, -, p, -, rfl⟩ | ⟨hpc, -, q, hq, rfl⟩ |
    ⟨msg, q, hpc, hres, hq, rfl⟩ | ⟨p, hpc, rfl⟩ | ⟨r, p, rest, q, hpc, hq, rfl⟩ | ⟨cmd, p, hpc, -, rfl⟩ | ⟨hpc, rfl⟩
  · exact .of_goto hgo.pc hgo.queue hturn.holding hturn.outgoing hgo.sent hgo.finished hgo.discarded
  · exact .of_goto (t := t) (c := .exited) rfl rfl (fun _ => by rw [hpc]; rfl) (by rw [hpc]; rfl) rfl rfl rfl
  · exact .of_goto (t := t) (c := .waitCommand) rfl rfl (fun _ => by rw [hpc]; rfl) (by rw [hpc]; rfl) rfl rfl rfl
  · simp only [MessageQueue.step] at hq
    split at hq
    · cases hq; exact .of_check rfl rfl (by rw [hpc]; rfl) (by rw [hpc]; rfl) rfl rfl rfl
    · cases hq
  · exact .ret hpc hres hq
  · rw [hpc] at hplace
    exact .handleStep (by simpa [placeOf] using hplace) hpc
  · exact .push hpc hq rfl rfl rfl rfl rfl
  · exact .of_goto (t := t) (c := .commanded cmd) rfl rfl (fun _ => by rw [hpc]; rfl) (by rw [hpc]; rfl) rfl rfl rfl
  · rw [hpc] at hplace
    obtain rfl : t = .observerIncoming := by simpa [placeOf] using hplace
    exact .emit hpc rfl rfl rfl rfl rfl

/-- A thread that is started had exited. -/
theorem Moves.withManager {s : Chain} (hl : LinkInv s) (m : ThreadManager) : Moves s (s.withManager m) := by
  have hpc : ∀ v, (s.withManager m).pc v = s.pc v ∨ (s.pc v = .exited ∧ (s.withManager m).pc v = .head) := by
    intro v
    by_cases hs : (!s.manager.running (taskId v) && m.running (taskId v)) = true
    · refine .inr ⟨hl.exited v ?_, if_pos hs⟩
      simp only [Bool.and_eq_true, Bool.not_eq_true'] at hs
      exact hs.1
    · exact .inl (if_neg hs)
  refine .of_same (fun _ => rfl) (fun v => ?_) (fun v => ?_) rfl rfl rfl
  · rcases hpc v with heq | ⟨hex, hhd⟩
    · rw [heq]; rfl
    · rw [hhd, hex]; rfl
  · rcases hpc v with heq | ⟨hex, hhd⟩
    · rw [heq]
    · rw [hhd, hex]; rfl

/-- **Every step is one of the five.** -/
theorem moves_of_step {s s' : Chain} {a : ChainAct} (hl : LinkInv s) (hst : s.step a = some s') : Moves s s' := by
  rcases step_cases hst with ⟨b, m, -, -, rfl⟩ | ⟨b, p, -, rfl⟩ | ⟨t, now, hgo⟩ |
    ⟨t, target, r, rest, q, hpc, hq, rfl⟩ | ⟨t, q, -, hq, rfl⟩ | ⟨t, timedOut, q, hpc, hq, rfl⟩
  · exact .withManager hl m
  · exact .quiet rfl rfl rfl rfl rfl
  · exact .go hl hgo
  · refine .of_queue rfl (MessageQueue.notify_flow rfl rfl hq) (fun v q => ?_) (fun v => ?_)
      rfl rfl rfl
    · exact apply_update_of_eq (fun _ c => holding c q) (by rw [hpc]; rfl) v
    · exact apply_update_of_eq (fun _ c => outgoing c) (by rw [hpc]; rfl) v
  · exact .of_queue rfl (MessageQueue.notify_flow rfl rfl hq) (fun _ _ => rfl) (fun _ => rfl) rfl rfl rfl
  · simp only [MessageQueue.step] at hq
    split at hq
    · rename_i c hw
      cases hq
      refine .of_check rfl ?_ (by rw [hpc, hw]; rfl) (by rw [hpc]; rfl) rfl rfl rfl
      rw [← hpc, Function.update_eq_self]
    · cases hq

/-! ## The threads run as the manager has it -/

theorem LinkInv.goto {s s' : Chain} (h : LinkInv s) {t : ChainTask} {c : ChainPc} (hrun : s.pc t ≠ .exited)
    (hpc : s'.pc = Function.update s.pc t c) (hm : s'.manager = s.manager) (hplace : placeOf t c = true) :
    LinkInv s' := by
  refine ⟨fun v hv => ?_, fun v => ?_⟩
  · rw [hm] at hv
    rw [hpc]
    by_cases hvt : v = t
    · rw [hvt] at hv; exact absurd (h.exited t hv) hrun
    · rw [Function.update_of_ne hvt]; exact h.exited v hv
  · rw [hpc]
    by_cases hvt : v = t
    · rw [hvt, Function.update_self]; exact hplace
    · rw [Function.update_of_ne hvt]; exact h.places v

theorem LinkInv.same {s s' : Chain} (h : LinkInv s) (hpc : s'.pc = s.pc) (hm : s'.manager = s.manager) : LinkInv s' :=
  ⟨fun v hv => by rw [hpc]; rw [hm] at hv; exact h.exited v hv, fun v => by rw [hpc]; exact h.places v⟩

theorem LinkInv.finish {s : Chain} (h : LinkInv s) {t : ChainTask} {m : ThreadManager}
    (hm : s.manager.step (.finish (taskId t)) = some m) : LinkInv { s.setPc t .exited with manager := m } := by
  refine ⟨fun v hv => ?_, fun v => ?_⟩
  · show Function.update s.pc t .exited v = .exited
    by_cases hvt : v = t
    · rw [hvt, Function.update_self]
    · rw [Function.update_of_ne hvt]
      refine h.exited v ?_
      simp only [ThreadManager.step] at hm
      split at hm
      · cases hm
        have hv : ((s.manager.setRun (taskId t) _).run (taskId v)).running = false := hv
        rw [ThreadManager.run_setRun_of_ne _ (fun he => hvt (by cases he; rfl))] at hv
        exact hv
      · cases hm
  · show placeOf v (Function.update s.pc t .exited v) = true
    by_cases hvt : v = t
    · rw [hvt, Function.update_self]; rfl
    · rw [Function.update_of_ne hvt]; exact h.places v

/-- The manager's step but `finish`: a thread it knows not to run did not run before. -/
theorem LinkInv.withManager {s : Chain} (h : LinkInv s) {m : ThreadManager}
    (hkeep : ∀ t, s.manager.running t = true → m.running t = true) : LinkInv (s.withManager m) := by
  refine ⟨fun v hv => ?_, fun v => ?_⟩
  · have hv : m.running (taskId v) = false := hv
    show (if (!s.manager.running (taskId v) && m.running (taskId v)) = true then ChainPc.head else s.pc v) = .exited
    rw [hv, Bool.and_false, if_neg nofun]
    refine h.exited v ?_
    cases hr : s.manager.running (taskId v) with
    | false => rfl
    | true => rw [hkeep _ hr] at hv; cases hv
  · show placeOf v (if (!s.manager.running (taskId v) && m.running (taskId v)) = true then ChainPc.head
      else s.pc v) = true
    split
    · rfl
    · exact h.places v

theorem linkInv_go {s s' : Chain} {t : ChainTask} {now : TimePoint} (h : LinkInv s) (hst : s.goStep t now = some s') :
    LinkInv s' := by
  have hplace := h.places t
  rcases goStep_cases hst with ⟨c, hturn, hgo⟩ | ⟨-, m, hm, rfl⟩ | ⟨hpc, rfl, p, -, rfl⟩ | ⟨hpc, hne, q, -, rfl⟩ |
    ⟨msg, q, hpc, -, -, rfl⟩ | ⟨p, hpc, rfl⟩ | ⟨r, p, rest, q, hpc, -, rfl⟩ | ⟨cmd, p, hpc, -, rfl⟩ | ⟨hpc, rfl⟩
  · exact h.goto hturn.ne_exited hgo.pc hgo.manager (hturn.placeOf hplace)
  · exact h.finish hm
  · exact h.goto (c := .waitCommand) (by rw [hpc]; exact nofun) rfl rfl rfl
  · exact h.goto (c := .waiting) (by rw [hpc]; exact nofun) rfl rfl (by simpa [placeOf] using hne)
  · rw [hpc] at hplace
    exact h.goto (c := .got msg) (by rw [hpc]; exact nofun) rfl rfl hplace
  · unfold Chain.handleStep
    split
    · exact h.goto (t := t) (c := .sending _) (by rw [hpc]; exact nofun) rfl rfl rfl
    · exact h.goto (t := t) (c := .head) (by rw [hpc]; exact nofun) rfl rfl rfl
  · exact h.goto (c := .notifying r rest) (by rw [hpc]; exact nofun) rfl rfl rfl
  · rw [hpc] at hplace
    exact h.goto (c := .commanded cmd) (by rw [hpc]; exact nofun) rfl rfl hplace
  · exact h.goto (t := t) (c := .sending _) (by rw [hpc]; exact nofun) rfl rfl rfl

theorem linkInv_step {s s' : Chain} {a : ChainAct} (h : LinkInv s) (hst : s.step a = some s') : LinkInv s' := by
  rcases step_cases hst with ⟨b, m, hok, hm, rfl⟩ | ⟨b, p, -, rfl⟩ | ⟨t, now, hgo⟩ |
    ⟨t, target, r, rest, q, hpc, -, rfl⟩ | ⟨t, q, -, -, rfl⟩ | ⟨t, timedOut, q, -, -, rfl⟩
  · refine h.withManager (fun u => ThreadManager.running_step (fun v ha => ?_) hm u)
    rw [ha] at hok; cases hok
  · exact h.same rfl rfl
  · exact linkInv_go h hgo
  · exact h.goto (c := .sending rest) (by rw [hpc]; exact nofun) rfl rfl rfl
  · exact h.same rfl rfl
  · exact h.same rfl rfl

theorem linkInv_init : LinkInv init := ⟨fun _ _ => rfl, fun _ => rfl⟩

/-! ## Every FileEvent is in one place -/

/-- The FileEvents in a thread's hand: in the Sends it has yet to make, or in the message it has yet to look at. -/
def hand (s : Chain) (t : ChainTask) : List FileEvent :=
  (s.outbox t).flatMap (fun e => e.2.carried) ++ (holding (s.pc t) ((s.queue t).pc t)).flatMap Payload.carried

def queued (s : Chain) (t : ChainTask) : List FileEvent := (s.queue t).contents.flatMap Payload.carried

def stage (s : Chain) (t : ChainTask) : List FileEvent :=
  (s.outbox t).flatMap (fun e => e.2.carried) ++ (s.inbox t).flatMap Payload.carried

theorem stage_eq (s : Chain) (t : ChainTask) : s.stage t = s.hand t ++ s.queued t := by
  unfold stage hand queued inbox
  rw [List.flatMap_append, List.append_assoc]

/-- Done with, then from the result task back to the application observer. -/
def located (s : Chain) : List FileEvent :=
  s.finished ++ s.stage .result ++ s.stage .transformation ++ s.stage .processing ++ s.stage .appObserver

/-- **The invariant of the flow.** -/
structure FlowInv (s : Chain) : Prop where
  located   : s.located = s.sent
  accepted  : ∀ t, ∀ p ∈ s.inbox t, accepts t p = true
  fits      : ∀ t, ∀ e ∈ s.outbox t, Fits t e
  discarded : ∀ d ∈ s.discarded, d.1 = .processing ∧ ∃ e, d.2 = .directEvent e

theorem accepted_update {s s' : Chain} {t : ChainTask} {l : List Payload}
    (h : ∀ v, ∀ p ∈ s.inbox v, accepts v p = true) (hin : s'.inbox = Function.update s.inbox t l)
    (hl : ∀ p ∈ l, accepts t p = true) : ∀ v, ∀ p ∈ s'.inbox v, accepts v p = true := by
  rw [hin]
  exact (Function.forall_update_iff s.inbox (fun v l => ∀ p ∈ l, accepts v p = true)).2 ⟨hl, fun v _ => h v⟩

theorem fits_update {s s' : Chain} {t : ChainTask} {l : List (ChainTask × Payload)}
    (h : ∀ v, ∀ e ∈ s.outbox v, Fits v e) (hout : s'.outbox = Function.update s.outbox t l)
    (hl : ∀ e ∈ l, Fits t e) : ∀ v, ∀ e ∈ s'.outbox v, Fits v e := by
  rw [hout]
  exact (Function.forall_update_iff s.outbox (fun v l => ∀ e ∈ l, Fits v e)).2 ⟨hl, fun v _ => h v⟩

theorem stage_congr {s s' : Chain} {t : ChainTask} (hin : s'.inbox t = s.inbox t) (hout : s'.outbox t = s.outbox t) :
    s'.stage t = s.stage t := by
  unfold stage
  rw [hin, hout]

theorem located_congr {s s' : Chain} (hfin : s'.finished = s.finished)
    (h : ∀ t, t ≠ .observerIncoming → s'.stage t = s.stage t) : s'.located = s.located := by
  unfold located
  rw [hfin, h .result nofun, h .transformation nofun, h .processing nofun, h .appObserver nofun]

/-- **A Send moves its FileEvent one stage on**, from the front of the sender's to the end of the receiver's. -/
theorem located_push {s s' : Chain} {t r : ChainTask} {p : Payload} (hnext : t.next = some r)
    (ht : s.stage t = p.carried ++ s'.stage t) (hr : s'.stage r = s.stage r ++ p.carried)
    (ho : ∀ v, v ≠ t → v ≠ r → s'.stage v = s.stage v) (hfin : s'.finished = s.finished) :
    s'.located = if t = .observerIncoming then s.located ++ p.carried else s.located := by
  unfold located
  rw [hfin]
  cases t with
  | observerIncoming =>
    obtain rfl := Option.some.inj hnext
    rw [if_pos rfl, hr, ho .result nofun nofun, ho .transformation nofun nofun, ho .processing nofun nofun]
    simp only [List.append_assoc]
  | appObserver =>
    obtain rfl := Option.some.inj hnext
    rw [if_neg nofun, ht, hr, ho .result nofun nofun, ho .transformation nofun nofun]
    simp only [List.append_assoc]
  | processing =>
    obtain rfl := Option.some.inj hnext
    rw [if_neg nofun, ht, hr, ho .result nofun nofun, ho .appObserver nofun nofun]
    simp only [List.append_assoc]
  | transformation =>
    obtain rfl := Option.some.inj hnext
    rw [if_neg nofun, ht, hr, ho .processing nofun nofun, ho .appObserver nofun nofun]
    simp only [List.append_assoc]
  | result => cases hnext

theorem located_finish {s s' : Chain} {p : Payload} (ht : s.stage .result = p.carried ++ s'.stage .result)
    (ho : ∀ v, v ≠ .result → s'.stage v = s.stage v) (hfin : s'.finished = s.finished ++ p.carried) :
    s'.located = s.located := by
  unfold located
  rw [hfin, ht, ho .transformation nofun, ho .processing nofun, ho .appObserver nofun]
  simp only [List.append_assoc]

theorem FlowInv.handled {s s' : Chain} (h : FlowInv s) {t : ChainTask} {p : Payload} {rest : List Payload}
    {sends : List (ChainTask × Payload)} (hh : handles s.mirrorCounter t p = some sends) (hin : s.inbox t = p :: rest)
    (hin' : s'.inbox = Function.update s.inbox t rest) (hout : s.outbox t = [])
    (hout' : s'.outbox = Function.update s.outbox t sends) (hsent : s'.sent = s.sent)
    (hfin : s'.finished = if t = .result then s.finished ++ p.carried else s.finished)
    (hdis : s'.discarded = s.discarded) : FlowInv s' := by
  have hself : s'.stage t = sends.flatMap (fun e => e.2.carried) ++ rest.flatMap Payload.carried := by
    unfold stage
    rw [hin', hout', Function.update_self, Function.update_self]
  have hself' : s.stage t = p.carried ++ rest.flatMap Payload.carried := by
    unfold stage
    rw [hin, hout]; rfl
  have hother : ∀ v, v ≠ t → s'.stage v = s.stage v := fun v hv =>
    stage_congr (by rw [hin', Function.update_of_ne hv]) (by rw [hout', Function.update_of_ne hv])
  have hrest : ∀ q ∈ rest, accepts t q = true := fun q hq =>
    h.accepted t q (by rw [hin]; exact List.mem_cons_of_mem _ hq)
  refine ⟨?_, accepted_update h.accepted hin' hrest, fits_update h.fits hout' (handles_fits hh),
    by rw [hdis]; exact h.discarded⟩
  rw [hsent, ← h.located]
  by_cases ht : t = .result
  · subst ht
    rw [handles_result hh] at hself
    rw [if_pos rfl] at hfin
    refine located_finish ?_ hother hfin
    rw [hself', hself]; rfl
  · rw [if_neg ht] at hfin
    refine located_congr hfin (fun v _ => ?_)
    by_cases hv : v = t
    · rw [hv, hself, hself', carried_handles hh ht]
    · exact hother v hv

theorem FlowInv.discards {s s' : Chain} (h : FlowInv s) {t : ChainTask} {p : Payload} {rest : List Payload}
    (hh : handles s.mirrorCounter t p = none) (ht : t ≠ .observerIncoming) (hin : s.inbox t = p :: rest)
    (hin' : s'.inbox = Function.update s.inbox t rest) (hout : s'.outbox = s.outbox) (hsent : s'.sent = s.sent)
    (hfin : s'.finished = s.finished) (hdis : s'.discarded = s.discarded ++ [(t, p)]) : FlowInv s' := by
  obtain ⟨rfl, e, rfl⟩ := handles_eq_none ht (h.accepted t p (by rw [hin]; exact List.mem_cons_self ..)) hh
  have hrest : ∀ q ∈ rest, accepts .processing q = true := fun q hq =>
    h.accepted _ q (by rw [hin]; exact List.mem_cons_of_mem _ hq)
  refine ⟨?_, accepted_update h.accepted hin' hrest, by rw [hout]; exact h.fits, fun d hd => ?_⟩
  · rw [hsent, ← h.located]
    refine located_congr hfin (fun v _ => ?_)
    by_cases hv : v = .processing
    · unfold stage
      rw [hv, hout, hin', Function.update_self, hin]; rfl
    · exact stage_congr (by rw [hin', Function.update_of_ne hv]) (by rw [hout])
  · rw [hdis] at hd
    rcases List.mem_append.1 hd with hd | hd
    · exact h.discarded d hd
    · obtain rfl := List.mem_singleton.1 hd
      exact ⟨rfl, e, rfl⟩

theorem FlowInv.pushes {s s' : Chain} (h : FlowInv s) {t r : ChainTask} {p : Payload}
    {rest : List (ChainTask × Payload)} (hout : s.outbox t = (r, p) :: rest)
    (hout' : s'.outbox = Function.update s.outbox t rest)
    (hin' : s'.inbox = Function.update s.inbox r (s.inbox r ++ [p]))
    (hsent : s'.sent = if t = .observerIncoming then s.sent ++ p.carried else s.sent)
    (hfin : s'.finished = s.finished) (hdis : s'.discarded = s.discarded) : FlowInv s' := by
  have hfit := h.fits t (r, p) (by rw [hout]; exact List.mem_cons_self ..)
  have hnew : ∀ q ∈ s.inbox r ++ [p], accepts r q = true := by
    intro q hq
    rcases List.mem_append.1 hq with hq | hq
    · exact h.accepted r q hq
    · obtain rfl := List.mem_singleton.1 hq
      exact hfit.1
  have hrest : ∀ e ∈ rest, Fits t e := fun e he => h.fits t e (by rw [hout]; exact List.mem_cons_of_mem _ he)
  refine ⟨?_, accepted_update h.accepted hin' hnew, fits_update h.fits hout' hrest, by rw [hdis]; exact h.discarded⟩
  rcases hfit.2 with hnone | hnext
  · -- a message that carries nothing shows nowhere
    have hnone : p.carried = [] := hnone
    have hsame : ∀ v, s'.stage v = s.stage v := by
      intro v
      unfold stage
      rw [hout', hin']
      refine congrArg₂ (· ++ ·) ?_ ?_
      · refine apply_update_of_eq (fun _ (l : List (ChainTask × Payload)) => l.flatMap (fun e => e.2.carried)) ?_ v
        rw [hout, List.flatMap_cons, hnone, List.nil_append]
      · refine apply_update_of_eq (fun _ (l : List Payload) => l.flatMap Payload.carried) ?_ v
        rw [List.flatMap_append, List.flatMap_singleton, hnone, List.append_nil]
    rw [located_congr hfin (fun v _ => hsame v), hsent, hnone, List.append_nil, ite_self, h.located]
  · have hne : r ≠ t := by
      intro he
      subst he
      cases r <;> cases hnext
    have hloc : s'.located = if t = .observerIncoming then s.located ++ p.carried else s.located := by
      refine located_push hnext ?_ ?_ (fun v hvt hvr => ?_) hfin
      · unfold stage
        rw [hout', hin', Function.update_self, Function.update_of_ne hne.symm, hout, List.flatMap_cons,
          List.append_assoc]
      · unfold stage
        rw [hout', hin', Function.update_self, Function.update_of_ne hne, List.flatMap_append,
          List.flatMap_singleton, List.append_assoc]
      · exact stage_congr (by rw [hin', Function.update_of_ne hvr]) (by rw [hout', Function.update_of_ne hvt])
    rw [hloc, hsent, h.located]

/-- **Each of the five keeps the FileEvents, and their order.** -/
theorem flowInv_moves {s s' : Chain} (h : FlowInv s) (hm : Moves s s') : FlowInv s' := by
  cases hm with
  | quiet hin hout hsent hfin hdis =>
    refine ⟨?_, by rw [hin]; exact h.accepted, by rw [hout]; exact h.fits, by rw [hdis]; exact h.discarded⟩
    rw [hsent, ← h.located]
    exact located_congr hfin (fun v _ => stage_congr (by rw [hin]) (by rw [hout]))
  | handled t p rest sends hh hin hin' hout hout' hsent hfin hdis =>
    exact h.handled hh hin hin' hout hout' hsent hfin hdis
  | discards t p rest hh ht hin hin' hout hsent hfin hdis => exact h.discards hh ht hin hin' hout hsent hfin hdis
  | emits count now hin hout hout' hsent hfin hdis =>
    refine ⟨?_, by rw [hin]; exact h.accepted, fits_update h.fits hout' (observerSends_fits count now),
      by rw [hdis]; exact h.discarded⟩
    rw [hsent, ← h.located]
    exact located_congr hfin (fun v hv => stage_congr (by rw [hin]) (by rw [hout', Function.update_of_ne hv]))
  | pushes t r p rest hout hout' hin' hsent hfin hdis => exact h.pushes hout hout' hin' hsent hfin hdis

theorem flowInv_init : FlowInv init :=
  ⟨rfl, fun _ p hp => (by cases hp), fun _ e he => (by cases he), fun d hd => (by cases hd)⟩

theorem reachable_flowInv {s : Chain} (hs : machine.Reachable s) : LinkInv s ∧ FlowInv s :=
  hs.invariant (I := fun s => LinkInv s ∧ FlowInv s) ⟨linkInv_init, flowInv_init⟩
    (fun _ _ _ hI hst => ⟨linkInv_step hI.1 hst, flowInv_moves hI.2 (moves_of_step hI.1 hst)⟩)

theorem Turns.target_ne_exited {c c' : ChainPc} (h : Turns c c') : c' ≠ .exited := by
  cases h <;> exact nofun

/-- **A thread ends at the head of its loop only.** -/
theorem head_of_exits {s s' : Chain} {a : ChainAct} (hst : s.step a = some s') {t : ChainTask} (hpc : s.pc t ≠ .exited)
    (hpc' : s'.pc t = .exited) : s.pc t = .head := by
  have hmoved : ∀ {u : ChainTask} {c : ChainPc}, s'.pc = Function.update s.pc u c → c ≠ .exited → False := by
    intro u c heq hc
    rw [heq] at hpc'
    by_cases htu : t = u
    · rw [htu, Function.update_self] at hpc'
      exact hc hpc'
    · rw [Function.update_of_ne htu] at hpc'
      exact hpc hpc'
  rcases step_cases hst with ⟨b, m, -, -, rfl⟩ | ⟨b, p, -, rfl⟩ | ⟨u, now, hgo⟩ |
    ⟨u, target, r, rest, q, -, -, rfl⟩ | ⟨u, q, -, -, rfl⟩ | ⟨u, timedOut, q, -, -, rfl⟩
  · simp only [withManager] at hpc'
    split at hpc'
    · cases hpc'
    · exact absurd hpc' hpc
  · exact absurd hpc' hpc
  · rcases goStep_cases hgo with ⟨c, hturn, hgo⟩ | ⟨hhead, m, -, rfl⟩ | ⟨-, -, p, -, rfl⟩ | ⟨-, -, q, -, rfl⟩ |
      ⟨msg, q, -, -, -, rfl⟩ | ⟨p, -, rfl⟩ | ⟨r, p, rest, q, -, -, rfl⟩ | ⟨cmd, p, -, -, rfl⟩ | ⟨-, rfl⟩
    · exact (hmoved hgo.pc hturn.target_ne_exited).elim
    · by_cases htu : t = u
      · rw [htu]
        exact hhead
      · have hsame : (s.setPc u .exited).pc t = s.pc t := Function.update_of_ne htu ..
        exact absurd (hsame.symm.trans hpc') hpc
    · exact (hmoved (c := .waitCommand) rfl nofun).elim
    · exact (hmoved (c := .waiting) rfl nofun).elim
    · exact (hmoved (c := .got msg) rfl nofun).elim
    · unfold Chain.handleStep at hmoved
      split at hmoved
      · exact (hmoved (c := .sending _) rfl nofun).elim
      · exact (hmoved (c := .head) rfl nofun).elim
    · exact (hmoved (c := .notifying r rest) rfl nofun).elim
    · exact (hmoved (c := .commanded cmd) rfl nofun).elim
    · exact (hmoved (c := .sending _) rfl nofun).elim
  · exact (hmoved (c := .sending rest) rfl nofun).elim
  · exact absurd hpc' hpc
  · exact absurd hpc' hpc

/-- **Every FileEvent the observer has sent is in the chain, once, unchanged and in order**: done with, or in the hand
or the queue of a task, from the result task back to the application observer.  A message that fails its task's cast is
a DirectEvent popped by the processing task, and a thread ends with no message popped and none still to be sent. -/
theorem chain_conserves {s : Chain} (hs : machine.Reachable s) :
    s.finished ++ s.hand .result ++ s.queued .result ++ s.hand .transformation ++ s.queued .transformation ++
      s.hand .processing ++ s.queued .processing ++ s.hand .appObserver ++ s.queued .appObserver = s.sent ∧
    (∀ d ∈ s.discarded, d.1 = .processing ∧ ∃ e, d.2 = .directEvent e) ∧
    (∀ a s' t, s.step a = some s' → s.pc t ≠ .exited → s'.pc t = .exited →
      s.inbox t = (s.queue t).contents ∧ s.outbox t = []) := by
  obtain ⟨-, h⟩ := reachable_flowInv hs
  refine ⟨?_, h.discarded, fun a s' t hst hpc hpc' => ?_⟩
  · rw [← h.located]
    unfold located
    rw [stage_eq, stage_eq, stage_eq, stage_eq]
    simp only [List.append_assoc]
  · unfold inbox outbox
    rw [head_of_exits hst hpc hpc']
    exact ⟨rfl, rfl⟩

/-- An event on its way when the chain is stopped: the application observer, told to stop, still sends on what it has
popped. -/
theorem chain_conserves_stopped : ∃ s : Chain, s.stopRequested .appObserver = true ∧ s.pc .appObserver = .exited ∧
    s.sent = [fileEvent 1 7] ∧ s.queued .processing = [fileEvent 1 7] := by
  obtain ⟨s, hrun⟩ : ∃ s, machine.runFrom machine.init
      [.manager .initTestChain, .manager (.start true), .manager (.start true), .manager (.start true),
       .manager (.start true), .manager (.start true), .manager .done,
       -- the observer's wait for a command times out
       .go .observerIncoming 0, .command .lock, .command (.waiter .consumer), .command (.waiter (.consumerLoads 0)),
       .command .checked, .command .block, .command .wake, .command (.relock true), .command (.waiter .consumer),
       .command (.waiter (.consumerLoads 0)), .command .checked,
       -- it emits its event
       .go .observerIncoming 1, .go .observerIncoming 2, .go .observerIncoming 3, .go .observerIncoming 4,
       .go .observerIncoming 7, .go .observerIncoming 8, .notify .observerIncoming none, .go .observerIncoming 9,
       .notify .observerIncoming none,
       -- the application observer pops it, and is told to stop
       .go .appObserver 0, .go .appObserver 0, .manager .stopAllThreads, .go .appObserver 0, .go .appObserver 0,
       .notify .appObserver none, .go .appObserver 0, .notify .appObserver none, .go .appObserver 0,
       .go .appObserver 0] = some s := ⟨_, rfl⟩
  have hstop : s.stopRequested .appObserver = true := by cases hrun; rfl
  have hpc : s.pc .appObserver = .exited := by cases hrun; rfl
  have hsent : s.sent = [fileEvent 1 7] := by cases hrun; rfl
  obtain ⟨hflow, -, -⟩ := chain_conserves (Machine.reachable_of_run _ hrun)
  have hao : s.hand .appObserver = [] ∧ s.queued .appObserver = [] := by cases hrun; exact ⟨rfl, rfl⟩
  have hpt : s.hand .processing = [] := by cases hrun; rfl
  have hbeyond : s.finished = [] ∧ s.hand .result = [] ∧ s.queued .result = [] ∧ s.hand .transformation = [] ∧
      s.queued .transformation = [] := by
    cases hrun
    exact ⟨rfl, rfl, rfl, rfl, rfl⟩
  obtain ⟨hfin, hrh, hrq, hth, htq⟩ := hbeyond
  rw [hao.1, hao.2, hpt, hfin, hrh, hrq, hth, htq, hsent] at hflow
  exact ⟨s, hstop, hpc, hsent, by simpa using hflow⟩

end Chain
end ThreadMessaging

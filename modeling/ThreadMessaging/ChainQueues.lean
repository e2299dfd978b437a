import ThreadMessaging.ChainFlow
/-!
# Who reads its queue

Four of the chain's threads take a message from their own queue in each iteration that starts with one there; the
observer waits for commands instead, and never looks at the queue that the application observer sends its MirrorEvents
to.  What an iteration did to the queue is a matter of the thread's history (`ThreadLog`); a step does one of five
things to a thread's queue and log (`InboxStep`), and `queues_consumed` says for each thread what comes of it.
-/
namespace ThreadMessaging

/-- A thread's iterations and its queue.  An iteration that ends without a message is the finding of an empty queue, and
not counted after it; of the observer, which looks at no queue, one that starts on an empty queue is taken for that. -/
structure ThreadLog where
  /-- The queue at the start of the current or the last iteration. -/
  atStart    : List (Option Payload) := []
  /-- What has been enqueued since that start. -/
  pushed     : List (Option Payload) := []
  /-- How many messages have been enqueued since the thread last found its queue empty. -/
  enqueued   : Nat := 0
  /-- How many iterations it has completed since. -/
  iterations : Nat := 0
  deriving DecidableEq, Repr

namespace ThreadLog

def begins (l : ThreadLog) (queue : List (Option Payload)) : ThreadLog := { l with atStart := queue, pushed := [] }

def checks (l : ThreadLog) (queue : List (Option Payload)) : ThreadLog :=
  if queue.isEmpty then { l with enqueued := 0, iterations := 0 } else l

def push (l : ThreadLog) (msg : Option Payload) : ThreadLog :=
  { l with pushed := l.pushed ++ [msg], enqueued := l.enqueued + 1 }

def completes (l : ThreadLog) : ThreadLog := { l with iterations := l.iterations + 1 }

def ends (l : ThreadLog) (t : ChainTask) : ThreadLog :=
  if t = .observerIncoming ∧ l.atStart = [] then l else l.completes

theorem checks_pushed (l : ThreadLog) (q : List (Option Payload)) : (l.checks q).pushed = l.pushed := by
  unfold checks
  split <;> rfl

@[simp] theorem checks_atStart (l : ThreadLog) (q : List (Option Payload)) : (l.checks q).atStart = l.atStart := by
  unfold checks
  split <;> rfl

theorem checks_nil (l : ThreadLog) : l.checks [] = { l with enqueued := 0, iterations := 0 } := rfl

theorem checks_cons (l : ThreadLog) (msg : Option Payload) (q : List (Option Payload)) : l.checks (msg :: q) = l := rfl

end ThreadLog

namespace MessageQueue

variable {ι M : Type}

/-- A thread in the middle of a wait, with a check to come. -/
def awaiting : QueuePc M → Bool
  | .blocked _ => true
  | .woken _   => true
  | _          => false

theorem Shifts.awaiting {p p' : QueuePc M} (h : Shifts p p') : MessageQueue.awaiting p' = MessageQueue.awaiting p := by
  cases h <;> rfl

variable [DecidableEq ι]

/-- **A check takes the front message**, and waits on only where there is none. -/
theorem check_takes (s : MessageQueue ι M) (i : ι) (c : PopCall) (timedOut : Bool) :
    (s.check i c timedOut).queue = s.queue.tail ∧
    (s.queue = [] → result ((s.check i c timedOut).pc i) = none) ∧
    (s.queue ≠ [] → awaiting ((s.check i c timedOut).pc i) = false) := by
  have hpop : ∀ c, (s.popAndReturn i c).queue = s.queue.tail ∧
      (s.queue = [] → result ((s.popAndReturn i c).pc i) = none) ∧
      (s.queue ≠ [] → awaiting ((s.popAndReturn i c).pc i) = false) := by
    intro c
    simp only [popAndReturn, Function.update_self]
    refine ⟨?_, fun hq => ?_, fun _ => rfl⟩
    · cases s.queue <;> rfl
    · rw [hq]; rfl
  have hset : ∀ {p : QueuePc M}, s.queue = [] → result p = none → (s.setPc i p).queue = s.queue.tail ∧
      (s.queue = [] → result ((s.setPc i p).pc i) = none) ∧
      (s.queue ≠ [] → awaiting ((s.setPc i p).pc i) = false) := by
    intro p hq hp
    simp only [setPc, Function.update_self]
    exact ⟨by rw [hq]; rfl, fun _ => hp, fun hne => absurd hq hne⟩
  unfold check
  split
  · rename_i he
    have hq : s.queue = [] := List.isEmpty_iff.1 he
    split
    · exact hpop _
    · exact hset hq rfl
    · exact hset hq rfl
  · exact hpop c

variable [Fintype ι]

theorem ret_queue {s t : MessageQueue ι M} {i : ι} (hst : s.step (.ret i) = some t) :
    t.queue = s.queue ∧ ∀ j, awaiting (t.pc j) = awaiting (s.pc j) := by
  simp only [step] at hst
  split at hst
  · rename_i c msg seen hi
    cases hst
    exact ⟨rfl, fun j => apply_update_of_eq (fun _ p => awaiting p) (by rw [hi]; rfl) j⟩
  · cases hst

end MessageQueue

namespace Chain

open MessageQueue (awaiting)

/-- **The threads' logs after a step.** -/
def noteQueues (l : ChainTask → ThreadLog) (s : Chain) (a : ChainAct) (s' : Chain) : ChainTask → ThreadLog :=
  match a with
  | .go t _ =>
    match s.pc t with
    | .head =>
      if s'.pc t = .exited then l
      else Function.update l t (((l t).begins (s.queue t).queue).checks (s.queue t).queue)
    | .sending ((r, p) :: _) => Function.update l r ((l r).push (some p))
    | .got none              => l
    | _                      => if s'.pc t = .head then Function.update l t ((l t).ends t) else l
  | .recheck t _ => Function.update l t ((l t).checks (s.queue t).queue)
  | _            => l

/-- Whether a thread has a message of this iteration: popped, or being dealt with. -/
def carries (c : ChainPc) (q : QueuePc Payload) : Nat :=
  match c with
  | .sending _     => 1
  | .notifying _ _ => 1
  | c              => (holding c q).length

def inFlight (s : Chain) (t : ChainTask) : Nat := carries (s.pc t) ((s.queue t).pc t)

/-- **What a step can do to a thread's queue, hand and log.**  The observer's hand is of no interest here. -/
inductive InboxStep (s s' : Chain) (t : ChainTask) (l l' : ThreadLog) : Prop
  | quiet (hq : (s'.queue t).queue = (s.queue t).queue) (hlog : l' = l)
      (hfly : t ≠ .observerIncoming → s'.inFlight t = s.inFlight t)
      (hwait : awaiting ((s'.queue t).pc t) = awaiting ((s.queue t).pc t))
  | pushed (msg : Option Payload) (hq : (s'.queue t).queue = (s.queue t).queue ++ [msg]) (hlog : l' = l.push msg)
      (hfly : t ≠ .observerIncoming → s'.inFlight t = s.inFlight t)
      (hwait : awaiting ((s'.queue t).pc t) = awaiting ((s.queue t).pc t))
  | begins (ht : t = .observerIncoming) (hq : (s'.queue t).queue = (s.queue t).queue)
      (hlog : l' = (l.begins (s.queue t).queue).checks (s.queue t).queue)
  | checks (first : Bool) (c : PopCall) (timedOut : Bool) (ht : t ≠ .observerIncoming)
      (hq : s'.queue t = (s.queue t).check t c timedOut) (hpc : s'.pc t = .waiting) (hfly : s.inFlight t = 0)
      (hlog : l' = (if first then l.begins (s.queue t).queue else l).checks (s.queue t).queue)
      (hwait : first = false → awaiting ((s.queue t).pc t) = true)
  | completes (hq : (s'.queue t).queue = (s.queue t).queue) (hlog : l' = l.completes)
      (hfly : t ≠ .observerIncoming → s'.inFlight t + 1 = s.inFlight t)
      (hwait : awaiting ((s'.queue t).pc t) = awaiting ((s.queue t).pc t))

/-! ## What the steps of the chain do -/

section Steps

variable {s s' : Chain} {t v : ChainTask} {l : ChainTask → ThreadLog}

theorem carries_congr (c : ChainPc) {q q' : QueuePc Payload} (h : MessageQueue.result q' = MessageQueue.result q) :
    carries c q' = carries c q := by
  unfold carries
  split
  · rfl
  · rfl
  · rw [holding_congr c h]

/-- A step on one queue that returns no message to a thread. -/
theorem carries_update {r : ChainTask} {q : MessageQueue ChainTask Payload}
    (hres : ∀ j, MessageQueue.result (q.pc j) = MessageQueue.result ((s.queue r).pc j)) (v : ChainTask) :
    carries (s.pc v) ((Function.update s.queue r q v).pc v) = s.inFlight v :=
  apply_update_of_eq (fun v (q : MessageQueue ChainTask Payload) => carries (s.pc v) (q.pc v))
    (carries_congr _ (hres r)) v

/-- A step that leaves a thread's queue, place and log alone. -/
theorem InboxStep.of_same {m m' : ThreadLog} (hq : s'.queue v = s.queue v) (hpc : s'.pc v = s.pc v) (hlog : m' = m) :
    InboxStep s s' v m m' :=
  .quiet (by rw [hq]) hlog (fun _ => by unfold inFlight; rw [hq, hpc]) (by rw [hq])

/-- A step that takes a thread to another place, its queue as it was. -/
theorem InboxStep.of_goto {c : ChainPc} {m' : ThreadLog} (hpc : s'.pc = Function.update s.pc t c)
    (hq : s'.queue = s.queue)
    (hfly : v = t → v ≠ .observerIncoming → carries c ((s.queue t).pc t) = s.inFlight t) (hlog : m' = l v) :
    InboxStep s s' v (l v) m' := by
  refine .quiet (by rw [hq]) hlog (fun hne => ?_) (by rw [hq])
  by_cases hv : v = t
  · subst hv
    rw [← hfly rfl hne]
    unfold inFlight
    rw [hpc, hq, Function.update_self]
  · unfold inFlight
    rw [hpc, hq, Function.update_of_ne hv]

/-- A step that ends an iteration. -/
theorem InboxStep.of_head (hpc : s'.pc = Function.update s.pc t .head) (hq : s'.queue = s.queue)
    (hfly : t ≠ .observerIncoming → s.inFlight t = 1) :
    InboxStep s s' v (l v) (Function.update l t ((l t).ends t) v) := by
  by_cases hv : v = t
  · subst hv
    rw [Function.update_self]
    unfold ThreadLog.ends
    split
    · rename_i hempty
      exact .quiet (by rw [hq]) rfl (fun hne => absurd hempty.1 hne) (by rw [hq])
    · refine .completes (by rw [hq]) rfl (fun hne => ?_) (by rw [hq])
      rw [hfly hne]
      unfold inFlight
      rw [hpc, Function.update_self]; rfl
  · rw [Function.update_of_ne hv]
    exact .of_same (by rw [hq]) (by rw [hpc, Function.update_of_ne hv]) rfl

/-- A step on one queue that neither adds nor takes a message. -/
theorem InboxStep.of_queue {r : ChainTask} {q : MessageQueue ChainTask Payload} {m' : ThreadLog}
    (hq : s'.queue = Function.update s.queue r q)
    (hflow : q.queue = (s.queue r).queue ∧ ∀ j, awaiting (q.pc j) = awaiting ((s.queue r).pc j))
    (hfly : carries (s'.pc v) ((s'.queue v).pc v) = s.inFlight v) (hlog : m' = l v) :
    InboxStep s s' v (l v) m' := by
  refine .quiet ?_ hlog (fun _ => hfly) ?_
  · rw [hq]
    exact apply_update_of_eq (fun _ (q : MessageQueue ChainTask Payload) => q.queue) hflow.1 v
  · rw [hq]
    exact apply_update_of_eq (fun v (q : MessageQueue ChainTask Payload) => awaiting (q.pc v)) (hflow.2 r) v

theorem inboxStep_turns {c : ChainPc} {now : TimePoint} (hl : LinkInv s) (hturn : Turns (s.pc t) c)
    (hgo : GoesOn s s' t c) : InboxStep s s' v (l v) (noteQueues l s (.go t now) s' v) := by
  have hself : s'.pc t = c := by rw [hgo.pc, Function.update_self]
  have hplace := hl.places t
  generalize hp : s.pc t = p at hturn hplace
  -- only a queue found empty, and the observer's pause, end an iteration without a message
  cases hturn with
  | timedOut =>
    simp only [noteQueues, hp]
    exact .of_goto hgo.pc hgo.queue (fun _ _ => by unfold inFlight; rw [hp]; rfl) rfl
  | allSent =>
    simp only [noteQueues, hp, hself, if_true]
    exact .of_head hgo.pc hgo.queue (fun _ => by unfold inFlight; rw [hp]; rfl)
  | commanded cmd =>
    simp only [noteQueues, hp, hself]
    exact .of_goto hgo.pc hgo.queue (fun _ _ => by unfold inFlight; rw [hp]; rfl) rfl
  | autoExit =>
    simp only [noteQueues, hp, hself]
    exact .of_goto hgo.pc hgo.queue (fun _ _ => by unfold inFlight; rw [hp]; rfl) rfl
  | paused =>
    simp only [noteQueues, hp, hself, if_true]
    refine .of_head hgo.pc hgo.queue (fun hne => ?_)
    exact absurd (by simpa [placeOf] using hplace) hne
  | due =>
    simp only [noteQueues, hp, hself]
    exact .of_goto hgo.pc hgo.queue (fun _ _ => by unfold inFlight; rw [hp]; rfl) rfl

theorem inboxStep_handle {p : Payload} {now : TimePoint} (hpc : s.pc t = .got (some p)) :
    InboxStep s (s.handleStep t p) v (l v) (noteQueues l s (.go t now) (s.handleStep t p) v) := by
  have hone : s.inFlight t = 1 := by unfold inFlight; rw [hpc]; rfl
  unfold handleStep
  cases handles s.mirrorCounter t p with
  | some sends =>
    have hne : (s.setPc t (.sending sends)).pc t ≠ .head := by
      rw [show (s.setPc t (.sending sends)).pc t = .sending sends from Function.update_self ..]
      exact nofun
    refine .of_goto (c := .sending sends) rfl rfl (fun _ _ => hone.symm) ?_
    simp only [noteQueues, hpc]
    rw [if_neg hne]
  | none =>
    have hself : (s.setPc t .head).pc t = .head := Function.update_self ..
    have hlog : noteQueues l s (.go t now) { s.setPc t .head with discarded := s.discarded ++ [(t, p)] } =
        Function.update l t ((l t).ends t) := by
      simp only [noteQueues, hpc]
      exact if_pos hself
    rw [hlog]
    exact .of_head rfl rfl (fun _ => hone)

/-- A check of a thread's own queue, at the start of its wait or after a wake-up. -/
theorem InboxStep.of_check (first : Bool) {c : PopCall} (timedOut : Bool) {m' : ThreadLog} (ht : t ≠ .observerIncoming)
    (hq : s'.queue = Function.update s.queue t ((s.queue t).check t c timedOut))
    (hpc : s'.pc = Function.update s.pc t .waiting) (hfly : s.inFlight t = 0)
    (hlog : m' = Function.update l t
      ((if first then (l t).begins (s.queue t).queue else l t).checks (s.queue t).queue) v)
    (hwait : first = false → awaiting ((s.queue t).pc t) = true) : InboxStep s s' v (l v) m' := by
  by_cases hv : v = t
  · subst hv
    rw [Function.update_self] at hlog
    exact .checks first c timedOut ht (by rw [hq, Function.update_self]) (by rw [hpc, Function.update_self]) hfly hlog
      hwait
  · rw [Function.update_of_ne hv] at hlog
    exact .of_same (by rw [hq, Function.update_of_ne hv]) (by rw [hpc, Function.update_of_ne hv]) hlog

theorem InboxStep.of_push {r : ChainTask} {p : Payload} {rest : List (ChainTask × Payload)}
    {q : MessageQueue ChainTask Payload} (hpc : s.pc t = .sending ((r, p) :: rest))
    (hst : (s.queue r).step (.push t (some p)) = some q) (hpc' : s'.pc = Function.update s.pc t (.notifying r rest))
    (hq : s'.queue = Function.update s.queue r q) :
    InboxStep s s' v (l v) (Function.update l r ((l r).push (some p)) v) := by
  obtain ⟨-, hres⟩ := MessageQueue.push_flow hst
  have hcont := MessageQueue.push_queue hst
  have hwait := fun j => (MessageQueue.shifts_step rfl hst j).awaiting
  have hfly : s'.inFlight v = s.inFlight v := by
    unfold inFlight
    rw [hpc', hq]
    refine (apply_update_of_eq (fun _ c => carries c _) (by rw [hpc]; rfl) v).trans ?_
    exact carries_update hres v
  by_cases hv : v = r
  · subst hv
    rw [Function.update_self]
    refine .pushed (some p) ?_ rfl (fun _ => hfly) ?_
    · rw [hq, Function.update_self]; exact hcont
    · rw [hq, Function.update_self]; exact hwait v
  · rw [Function.update_of_ne hv]
    exact .quiet (by rw [hq, Function.update_of_ne hv]) rfl (fun _ => hfly) (by rw [hq, Function.update_of_ne hv])

theorem inboxStep_ret {msg : Option Payload} {q : MessageQueue ChainTask Payload} (hpc : s.pc t = .waiting)
    (hres : MessageQueue.result ((s.queue t).pc t) = msg) (hst : (s.queue t).step (.ret t) = some q)
    (hpc' : s'.pc = Function.update s.pc t (.got msg)) (hq : s'.queue = Function.update s.queue t q) {m' : ThreadLog}
    (hlog : m' = l v) : InboxStep s s' v (l v) m' := by
  refine .of_queue hq (MessageQueue.ret_queue hst) ?_ hlog
  unfold inFlight
  by_cases hv : v = t
  · subst hv
    rw [hpc', Function.update_self, hpc, ← hres]; rfl
  · rw [hpc', hq, Function.update_of_ne hv, Function.update_of_ne hv]

/-- The observer goes into its wait, and takes nothing from its queue. -/
theorem inboxStep_waitCommand (hpc' : s'.pc = Function.update s.pc .observerIncoming .waitCommand)
    (hq : s'.queue = s.queue) : InboxStep s s' v (l v)
      (Function.update l .observerIncoming (((l .observerIncoming).begins (s.queue .observerIncoming).queue).checks
        (s.queue .observerIncoming).queue) v) := by
  by_cases hv : v = .observerIncoming
  · subst hv
    rw [Function.update_self]
    exact .begins rfl (by rw [hq]) rfl
  · rw [Function.update_of_ne hv]
    exact .of_same (by rw [hq]) (by rw [hpc', Function.update_of_ne hv]) rfl

theorem inboxStep_go {now : TimePoint} (hl : LinkInv s) (hst : s.goStep t now = some s') :
    InboxStep s s' v (l v) (noteQueues l s (.go t now) s' v) := by
  have hplace := hl.places t
  have hself : ∀ (u : Chain) (c : ChainPc), (u.setPc t c).pc t = c := fun _ _ => Function.update_self ..
  rcases goStep_cases hst with ⟨c, hturn, hgo⟩ | ⟨hpc, m, -, rfl⟩ | ⟨hpc, rfl, p, -, rfl⟩ | ⟨hpc, hne, q, hq, rfl⟩ |
    ⟨msg, q, hpc, hres, hq, rfl⟩ | ⟨p, hpc, rfl⟩ | ⟨r, p, rest, q, hpc, hq, rfl⟩ | ⟨cmd, p, hpc, -, rfl⟩ | ⟨hpc, rfl⟩
  · exact inboxStep_turns hl hturn hgo
  · refine .of_goto (t := t) (c := .exited) rfl rfl (fun _ _ => by unfold inFlight; rw [hpc]; rfl) ?_
    simp only [noteQueues, hpc, hself, if_true]
  · simp only [noteQueues, hpc, hself]
    exact inboxStep_waitCommand rfl rfl
  · simp only [MessageQueue.step] at hq
    split at hq
    · cases hq
      refine .of_check true false hne rfl rfl (by unfold inFlight; rw [hpc]; rfl) ?_ (fun he => by cases he)
      simp only [noteQueues, hpc, hself, if_true]; rfl
    · cases hq
  · refine inboxStep_ret hpc hres hq rfl rfl ?_
    simp only [noteQueues, hpc, hself]; rfl
  · exact inboxStep_handle hpc
  · simp only [noteQueues, hpc]
    exact .of_push hpc hq rfl rfl
  · refine .of_goto (t := t) (c := .commanded cmd) rfl rfl (fun _ _ => by unfold inFlight; rw [hpc]; rfl) ?_
    simp only [noteQueues, hpc, hself]; rfl
  · rw [hpc] at hplace
    have ht : t = .observerIncoming := by simpa [placeOf] using hplace
    refine .of_goto (t := t) (c := .sending _) rfl rfl (fun hv hne => absurd (hv.trans ht) hne) ?_
    simp only [noteQueues, hpc, hself]; rfl

/-- **Every step does one of the five to each thread's queue and log.** -/
theorem inboxStep_of_step {a : ChainAct} (hl : LinkInv s) (hst : s.step a = some s') :
    InboxStep s s' v (l v) (noteQueues l s a s' v) := by
  cases a with
  | manager b =>
    simp only [step] at hst
    split at hst
    · obtain ⟨m, -, rfl⟩ := Option.map_eq_some_iff.1 hst
      -- a thread that is started had exited, and carries nothing at the head of its loop
      have hpc : (s.withManager m).pc v = s.pc v ∨ s.pc v = .exited ∧ (s.withManager m).pc v = .head := by
        by_cases hs : (!s.manager.running (taskId v) && m.running (taskId v)) = true
        · refine .inr ⟨hl.exited v ?_, if_pos hs⟩
          simp only [Bool.and_eq_true, Bool.not_eq_true'] at hs
          exact hs.1
        · exact .inl (if_neg hs)
      refine .quiet rfl rfl (fun _ => ?_) rfl
      unfold inFlight
      rcases hpc with heq | ⟨hex, hhd⟩
      · rw [heq]; rfl
      · rw [hex, hhd]; rfl
    · cases hst
  | command b =>
    simp only [step] at hst
    split at hst
    · obtain ⟨p, -, rfl⟩ := Option.map_eq_some_iff.1 hst
      exact .of_same rfl rfl rfl
    · cases hst
  | go t now => exact inboxStep_go hl hst
  | notify t target =>
    simp only [step] at hst
    split at hst
    · rename_i r rest hpc
      obtain ⟨u, hu, rfl⟩ := Option.map_eq_some_iff.1 hst
      obtain ⟨q, hq, rfl⟩ := queueStep_eq hu
      obtain ⟨-, hres⟩ := MessageQueue.notify_flow rfl rfl hq
      have hwait := fun j => (MessageQueue.shifts_step rfl hq j).awaiting
      refine .of_queue rfl ⟨MessageQueue.queue_step rfl hq, hwait⟩ ?_ rfl
      refine (apply_update_of_eq (fun _ c => carries c _) (by rw [hpc]; rfl) v).trans ?_
      exact carries_update hres v
    · cases hst
  | wake t =>
    simp only [step] at hst
    split at hst
    · obtain ⟨q, hq, rfl⟩ := queueStep_eq hst
      obtain ⟨-, hres⟩ := MessageQueue.notify_flow rfl rfl hq
      have hwait := fun j => (MessageQueue.shifts_step rfl hq j).awaiting
      exact .of_queue rfl ⟨MessageQueue.queue_step rfl hq, hwait⟩ (carries_update hres v) rfl
    · cases hst
  | recheck t timedOut =>
    simp only [step] at hst
    split at hst
    · rename_i hpc
      obtain ⟨q, hq, rfl⟩ := queueStep_eq hst
      have ht : t ≠ .observerIncoming := by
        have hplace := hl.places t
        rw [hpc] at hplace
        simpa [placeOf] using hplace
      simp only [MessageQueue.step] at hq
      split at hq
      · rename_i c hw
        cases hq
        refine .of_check false timedOut ht rfl (by rw [← hpc, Function.update_eq_self]) ?_ rfl
          (fun _ => by rw [hw]; rfl)
        unfold inFlight
        rw [hpc, hw]; rfl
      · cases hq
    · cases hst

end Steps

/-! ## What comes of it -/

/-- **A thread that reads its queue**: past the start of an iteration the oldest message is gone, and what is unread or
in hand has been enqueued since the queue was last found empty, an iteration for each. -/
structure Consumes (s : Chain) (t : ChainTask) (l : ThreadLog) : Prop where
  oldest : ∀ msg rest, l.atStart = msg :: rest →
           (s.queue t).queue = rest ++ l.pushed ∧ awaiting ((s.queue t).pc t) = false
  count  : (s.queue t).queue.length + l.iterations + s.inFlight t ≤ l.enqueued

/-- **A thread that does not**: all that was ever enqueued is there. -/
structure Hoards (s : Chain) (t : ChainTask) (l : ThreadLog) : Prop where
  all   : (s.queue t).queue = l.atStart ++ l.pushed
  count : (s.queue t).queue.length = l.enqueued

section Invariants

variable {s s' : Chain} {t : ChainTask} {l l' : ThreadLog}

theorem carries_le_one (c : ChainPc) (q : QueuePc Payload) : carries c q ≤ 1 := by
  have hopt : ∀ msg : Option Payload, msg.toList.length ≤ 1 := fun msg => by cases msg <;> simp
  cases c with
  | waiting => exact hopt _
  | got msg => exact hopt msg
  | sending rest => exact Nat.le_refl 1
  | notifying r rest => exact Nat.le_refl 1
  | _ => exact Nat.zero_le 1

/-- A check at the start of an iteration takes the oldest message; before one after a wake-up the queue was empty. -/
theorem Consumes.checks {first : Bool} {c : PopCall} {timedOut : Bool} (h : Consumes s t l)
    (hq : s'.queue t = (s.queue t).check t c timedOut) (hpc : s'.pc t = .waiting) (hfly : s.inFlight t = 0)
    (hlog : l' = (if first then l.begins (s.queue t).queue else l).checks (s.queue t).queue)
    (hwait : first = false → awaiting ((s.queue t).pc t) = true) : Consumes s' t l' := by
  obtain ⟨htail, hnil, hcons⟩ := (s.queue t).check_takes t c timedOut
  have hle := carries_le_one (s'.pc t) ((s'.queue t).pc t)
  have hcount := h.count
  rw [hfly, Nat.add_zero] at hcount
  subst hlog
  cases hmsgs : (s.queue t).queue with
  | nil =>
    have hres := hnil hmsgs
    rw [hmsgs] at htail
    refine ⟨fun msg rest hs => ?_, ?_⟩
    · -- no iteration that is still in its wait started with a message
      rw [ThreadLog.checks_atStart] at hs
      cases first with
      | true => cases hs
      | false =>
        have hno := (h.oldest msg rest hs).2
        rw [hwait rfl] at hno
        cases hno
    · have hzero : s'.inFlight t = 0 := by
        unfold inFlight
        rw [hpc, hq]
        show (MessageQueue.result _).toList.length = 0
        rw [hres]; rfl
      rw [hq, htail, hzero, ThreadLog.checks_nil]
      exact Nat.le_refl 0
  | cons front rest =>
    have hno := hcons (by rw [hmsgs]; exact List.cons_ne_nil _ _)
    rw [hmsgs] at htail hcount
    rw [ThreadLog.checks_cons]
    refine ⟨fun msg rest' hs => ?_, ?_⟩
    · cases first with
      | true =>
        obtain ⟨-, rfl⟩ : front = msg ∧ rest = rest' := by simpa [ThreadLog.begins] using hs
        rw [hq, htail]
        exact ⟨(List.append_nil _).symm, hno⟩
      | false =>
        have hawait := (h.oldest msg rest' hs).2
        rw [hwait rfl] at hawait
        cases hawait
    · have hsame : (if first then l.begins (front :: rest) else l).iterations = l.iterations ∧
          (if first then l.begins (front :: rest) else l).enqueued = l.enqueued := by
        cases first <;> exact ⟨rfl, rfl⟩
      rw [hq, htail, hsame.1, hsame.2, List.tail_cons]
      rw [List.length_cons] at hcount
      unfold inFlight
      rw [hq] at hle ⊢
      omega

theorem consumes_step (ht : t ≠ .observerIncoming) (h : Consumes s t l) (hst : InboxStep s s' t l l') :
    Consumes s' t l' := by
  cases hst with
  | quiet hq hlog hfly hwait =>
    subst hlog
    refine ⟨fun msg rest hs => ?_, ?_⟩
    · rw [hq, hwait]; exact h.oldest msg rest hs
    · rw [hq, hfly ht]; exact h.count
  | pushed msg hq hlog hfly hwait =>
    subst hlog
    refine ⟨fun front rest hs => ?_, ?_⟩
    · obtain ⟨hrest, hno⟩ := h.oldest front rest hs
      rw [hq, hwait, hrest]
      exact ⟨List.append_assoc .., hno⟩
    · have hcount := h.count
      rw [hq, hfly ht, List.length_append, List.length_singleton]
      show _ + 1 + l.iterations + _ ≤ l.enqueued + 1
      omega
  | begins hoi => exact absurd hoi ht
  | checks first c timedOut _ hq hpc hfly hlog hwait => exact h.checks hq hpc hfly hlog hwait
  | completes hq hlog hfly hwait =>
    subst hlog
    refine ⟨fun msg rest hs => ?_, ?_⟩
    · rw [hq, hwait]; exact h.oldest msg rest hs
    · have hcount := h.count
      have hone := hfly ht
      rw [hq]
      show _ + (l.iterations + 1) + _ ≤ l.enqueued
      omega

theorem hoards_step (h : Hoards s .observerIncoming l) (hst : InboxStep s s' .observerIncoming l l') :
    Hoards s' .observerIncoming l' := by
  cases hst with
  | quiet hq hlog => subst hlog; exact ⟨hq ▸ h.all, hq ▸ h.count⟩
  | pushed msg hq hlog =>
    subst hlog
    refine ⟨?_, ?_⟩
    · rw [hq, h.all]; exact List.append_assoc ..
    · rw [hq, List.length_append, h.count]; rfl
  | begins _ hq hlog =>
    subst hlog
    refine ⟨?_, ?_⟩
    · rw [hq, ThreadLog.checks_atStart, ThreadLog.checks_pushed]
      exact (List.append_nil _).symm
    · rw [hq]
      cases hmsgs : (s.queue .observerIncoming).queue with
      | nil => rfl
      | cons msg rest =>
        rw [ThreadLog.checks_cons, ← hmsgs]
        exact h.count
  | checks _ _ _ hne => exact absurd rfl hne
  | completes hq hlog => subst hlog; exact ⟨hq ▸ h.all, hq ▸ h.count⟩

end Invariants

/-- The five logs, by whether their thread reads its queue. -/
def QueuesInv (s : Chain) (l : ChainTask → ThreadLog) : Prop :=
  Hoards s .observerIncoming (l .observerIncoming) ∧ ∀ t, t ≠ .observerIncoming → Consumes s t (l t)

theorem reachable_queuesInv {s : Chain} {l : ChainTask → ThreadLog}
    (hs : (machine.withHistory (fun _ => {}) noteQueues).Reachable (s, l)) : QueuesInv s l := by
  refine hs.history_invariant (I := QueuesInv) (fun s hs => (reachable_flowInv hs).1) ?_
    (fun s l a s' hl hI hst => ⟨hoards_step hI.1 (inboxStep_of_step hl hst),
      fun t ht => consumes_step ht (hI.2 t ht) (inboxStep_of_step hl hst)⟩)
  exact ⟨⟨rfl, rfl⟩, fun t _ => ⟨nofun, Nat.le_refl 0⟩⟩

/-- **Each thread but the observer takes the oldest message of its queue in every iteration that starts with one**, and
so has no more unread than were enqueued since it last found the queue empty, less the iterations since; of the observer
the first never holds, and the second no longer once it has completed an iteration that started with a message. -/
theorem queues_consumed {s : Chain} {l : ChainTask → ThreadLog}
    (hs : (machine.withHistory (fun _ => {}) noteQueues).Reachable (s, l)) (t : ChainTask) :
    (∀ msg rest, s.pc t = .head → (l t).atStart = msg :: rest →
      ((s.queue t).queue = rest ++ (l t).pushed ↔ t ≠ .observerIncoming)) ∧
    ((s.queue t).queue.length + (l t).iterations ≤ (l t).enqueued ↔
      (t ≠ .observerIncoming ∨ (l t).iterations = 0)) := by
  obtain ⟨hoi, hall⟩ := reachable_queuesInv hs
  by_cases ht : t = .observerIncoming
  · subst ht
    refine ⟨fun msg rest _ hstart => ?_, ?_⟩
    · refine ⟨fun hq => ?_, fun hne => absurd rfl hne⟩
      have hlen := congrArg List.length (hq.symm.trans hoi.all)
      rw [hstart] at hlen
      simp at hlen
    · rw [hoi.count]
      constructor
      · exact fun hle => .inr (by omega)
      · rintro (hne | hzero)
        · exact absurd rfl hne
        · rw [hzero]; exact Nat.le_refl _
  · have hread := hall t ht
    refine ⟨fun msg rest _ hstart => ?_, ?_⟩
    · exact ⟨fun _ => ht, fun _ => (hread.oldest msg rest hstart).1⟩
    · exact ⟨fun _ => .inl ht, fun _ => Nat.le_trans (Nat.le_add_right ..) hread.count⟩

/-- The observer's wait for a command, up to its timeout. -/
def waitTimesOut (now : TimePoint) : List ChainAct :=
  [.go .observerIncoming now, .command .lock, .command (.waiter .consumer), .command (.waiter (.consumerLoads 0)),
   .command .checked, .command .block, .command .wake, .command (.relock true), .command (.waiter .consumer),
   .command (.waiter (.consumerLoads 0)), .command .checked]

/-- The rest of its iteration: an event, to the application observer and to the processing task. -/
def emits (now : TimePoint) : List ChainAct :=
  [.go .observerIncoming now, .go .observerIncoming now, .go .observerIncoming now, .go .observerIncoming now,
   .go .observerIncoming now, .go .observerIncoming now, .notify .observerIncoming none, .go .observerIncoming now,
   .notify .observerIncoming none, .go .observerIncoming now]

/-- The observer emits an event; the application observer takes it and sends its MirrorEvent back. -/
def mirrored : List ChainAct :=
  [.manager .initTestChain, .manager (.start true), .manager (.start true), .manager (.start true),
   .manager (.start true), .manager (.start true), .manager .done] ++ waitTimesOut 0 ++ emits 7 ++
  [.go .appObserver 0, .go .appObserver 0, .go .appObserver 0, .go .appObserver 0, .notify .appObserver none,
   .go .appObserver 0, .notify .appObserver none, .go .appObserver 0]

/-- The application observer's iteration that started with the FileEvent has taken it. -/
theorem queues_consumed_mirrored : ∃ (s : Chain) (l : ThreadLog), s.pc .appObserver = .head ∧
    l.atStart = [some (.fileEvent (fileEvent 1 7))] ∧ (s.queue .appObserver).queue = l.pushed := by
  obtain ⟨p, hrun⟩ : ∃ p, (machine.withHistory (fun _ => {}) noteQueues).runFrom
      (machine.withHistory (fun _ => {}) noteQueues).init mirrored = some p := ⟨_, rfl⟩
  have hpc : p.1.pc .appObserver = .head := by cases hrun; rfl
  have hstart : (p.2 .appObserver).atStart = [some (.fileEvent (fileEvent 1 7))] := by cases hrun; rfl
  obtain ⟨htakes, -⟩ := queues_consumed (Machine.reachable_of_run _ hrun) .appObserver
  have hqueue := (htakes _ _ hpc hstart).2 (by decide)
  exact ⟨p.1, p.2 .appObserver, hpc, hstart, hqueue⟩

/-- **The observer never takes a MirrorEvent**: its next whole iteration leaves it where it is. -/
theorem exists_unread : ¬ ∀ s l, (machine.withHistory (fun _ => {}) noteQueues).Reachable (s, l) →
    ∀ t msg rest, s.pc t = .head → (l t).atStart = msg :: rest → (s.queue t).queue = rest ++ (l t).pushed := by
  intro hall
  obtain ⟨p, hrun⟩ : ∃ p, (machine.withHistory (fun _ => {}) noteQueues).runFrom
      (machine.withHistory (fun _ => {}) noteQueues).init (mirrored ++ waitTimesOut 8 ++ emits 9) = some p := ⟨_, rfl⟩
  have hpc : p.1.pc .observerIncoming = .head := by cases hrun; rfl
  have hlog : (p.2 .observerIncoming).atStart = [some (.mirrorEvent { counter := 1, message := "file_1.txt" })] ∧
      (p.2 .observerIncoming).pushed = [] := by cases hrun; exact ⟨rfl, rfl⟩
  have hqueue : (p.1.queue .observerIncoming).queue =
      [some (.mirrorEvent { counter := 1, message := "file_1.txt" })] := by cases hrun; rfl
  have := hall p.1 p.2 (Machine.reachable_of_run _ hrun) _ _ _ hpc hlog.1
  rw [hqueue, hlog.2] at this
  cases this

end Chain
end ThreadMessaging

import Mathlib.Data.Fintype.Option
import ThreadMessaging.MessageQueue
import ThreadMessaging.TaskRun
/-!
# What is sent to a receiver, and what it is told of

Any number of threads send payloads of any types to one task; `makeSender(true)` gives them Senders that call the
task's `onPostMessageReceived` after the push.  A `Send` is four steps: it makes the wrapper, enqueues it, notifies the
queue and calls back.  Meanwhile the task's loop waits with timeouts, stops and is started again at any point.

A message can be popped before its sender's callback runs.  What the callbacks still owe is what the senders hold that
are behind their push (`owed`); when none is, the callbacks, the messages popped and those in the queue balance
(`delivered`).
-/
namespace ThreadMessaging

/-- A `MessageWrapper<T>`, by its type and contents.  `send` says which it is: the thread whose `Send` has made it, and
that Send's number there. -/
structure Wrapped (ι : Type) {τ : Type} (P : τ → Type) where
  send     : ι × Nat
  type     : τ
  contents : P type

/-- `dynamic_pointer_cast<MessageWrapper<T>>`, and the contents of what it gives. -/
def Wrapped.downcast {ι τ : Type} {P : τ → Type} [DecidableEq τ] (w : Wrapped ι P) (type : τ) : Option (P type) :=
  if h : w.type = type then some (h ▸ w.contents) else none

/-- A Sender to the receiver's queue or to none, with the receiver's callback or without. -/
structure Sender where
  messageQueuePtr : Bool := false
  postNotify      : Bool := false
  deriving DecidableEq, Repr

def makeSender (notifyOnPost : Bool) : Sender where
  messageQueuePtr := true
  postNotify      := notifyOnPost

/-- Where a thread stands in `Send<T>`: at the push, at the queue's `notify_one`, at the callback. -/
inductive SendPc (ι : Type) {τ : Type} (P : τ → Type)
  | idle
  | push (sender : Sender) (type : τ) (w : Wrapped ι P)
  | notifyOne (sender : Sender) (type : τ) (w : Wrapped ι P)
  | post (type : τ) (w : Wrapped ι P)

/-- Where the task's thread stands; `got` is the iteration's message. -/
inductive ReceivePc (ι : Type) {τ : Type} (P : τ → Type)
  | exited
  | head
  | enter
  | waiting
  | got (msg : Option (Wrapped ι P))

/-- `none` is the task's own thread, to its queue; `made` counts the Sends of each of the others. -/
structure Delivery (ι : Type) {τ : Type} (P : τ → Type) where
  queue     : MessageQueue (Option ι) (Wrapped ι P)
  task      : TaskRun
  requested : Nat → Bool
  loop      : ReceivePc ι P
  send      : ι → SendPc ι P
  made      : ι → Nat

/-- What can happen next: the steps of a Send, those of whoever starts and stops the task, those of its loop. -/
inductive DeliveryAct (ι : Type) {τ : Type} (P : τ → Type)
  | send (i : ι) (sender : Sender) (type : τ) (message : P type)
  | push (i : ι)
  | notifyOne (i : ι) (target : Option (Option ι))
  | post (i : ι)
  | start (token : Option Nat) (ok : Bool)
  | stop
  | requestStop (k : Nat)
  | test
  | wait
  | wake
  | recheck (timedOut : Bool)
  | ret
  | handle

/-- What has happened: the arguments of each thread's Sends, the messages pushed, the calls of `onPostMessageReceived`,
the messages popped, each in order. -/
structure DeliveryLog (ι : Type) {τ : Type} (P : τ → Type) where
  sent     : ι → List (Sigma P)
  enqueued : List (Wrapped ι P)
  notified : List (τ × Wrapped ι P)
  popped   : List (Wrapped ι P)

namespace MessageQueue

variable {ι M : Type} [DecidableEq ι] [Fintype ι]

theorem call_step {s t : MessageQueue ι M} {i : ι} {c : PopCall} (hst : s.step (.call i c) = some t) :
    t = s.check i c false := by
  simp only [step] at hst
  split at hst
  · cases hst; rfl
  · cases hst

theorem recheck_step {s t : MessageQueue ι M} {i : ι} {timedOut : Bool} (hst : s.step (.recheck i timedOut) = some t) :
    ∃ c, t = s.check i c timedOut := by
  simp only [step] at hst
  split at hst
  · cases hst; exact ⟨_, rfl⟩
  · cases hst

omit [DecidableEq ι] [Fintype ι] in
/-- The queue of messages that are there is its contents. -/
theorem AllMessages.queue_eq {s : MessageQueue ι M} (h : s.AllMessages (fun msg => msg ≠ none)) :
    s.queue = s.contents.map some := by
  have hall : ∀ q : List (Option M), (∀ msg ∈ q, msg ≠ none) → q = (q.filterMap id).map some := by
    intro q hq
    induction q with
    | nil => rfl
    | cons msg q ih =>
      cases msg with
      | none => exact absurd rfl (hq none (List.mem_cons_self ..))
      | some m =>
        exact congrArg (some m :: ·) (ih (fun m hm => hq m (List.mem_cons_of_mem _ hm)))
  exact hall s.queue h.1

end MessageQueue

namespace Delivery

variable {ι τ : Type} {P : τ → Type} [DecidableEq ι]

def setSend (s : Delivery ι P) (i : ι) (c : SendPc ι P) : Delivery ι P :=
  { s with send := Function.update s.send i c }

/-- `Send` up to its push; without a queue it only logs an error. -/
def sendStep (s : Delivery ι P) (i : ι) (sender : Sender) (type : τ) (message : P type) : Delivery ι P :=
  if sender.messageQueuePtr then
    { s.setSend i (.push sender type ⟨(i, s.made i), type, message⟩) with
        made := Function.update s.made i (s.made i + 1) }
  else s

/-- The task's stop token: its thread's own, and the one it was started with. -/
def stopRequested (s : Delivery ι P) : Bool := s.task.stopped || s.task.token.any s.requested

variable [Fintype ι]

def queueStep (s : Delivery ι P) (a : QueueAct (Option ι) (Wrapped ι P)) : Option (Delivery ι P) :=
  (s.queue.step a).map (fun q => { s with queue := q })

def step (s : Delivery ι P) : DeliveryAct ι P → Option (Delivery ι P)
  | .send i sender type message =>
    match s.send i with
    | .idle => some (s.sendStep i sender type message)
    | _     => none
  | .push i =>
    match s.send i with
    | .push sender type w =>
      (s.queueStep (.push (some i) (some w))).map (fun u => u.setSend i (.notifyOne sender type w))
    | _ => none
  | .notifyOne i target =>
    match s.send i with
    | .notifyOne sender type w =>
      (s.queueStep (.notifyOne (some i) target)).map (fun u =>
        u.setSend i (if sender.postNotify then .post type w else .idle))
    | _ => none
  | .post i =>
    match s.send i with
    | .post _ _ => some (s.setSend i .idle)
    | _         => none
  | .start token ok =>
    let (task, started) := s.task.start token ok
    some (if started then { s with task := task, loop := .head } else s)
  | .stop          => some { s with task := s.task.stop }
  | .requestStop k => some { s with requested := Function.update s.requested k true }
  | .test =>
    match s.loop with
    | .head => some (if s.stopRequested then { s with task := s.task.finish, loop := .exited }
                     else { s with loop := .enter })
    | _     => none
  | .wait =>
    match s.loop with
    | .enter => (s.queueStep (.call none .waitFor)).map (fun u => { u with loop := .waiting })
    | _      => none
  | .wake =>
    match s.loop with
    | .waiting => s.queueStep (.wake none)
    | _        => none
  | .recheck timedOut =>
    match s.loop with
    | .waiting => s.queueStep (.recheck none timedOut)
    | _        => none
  | .ret =>
    match s.loop, s.queue.pc none with
    | .waiting, .ret _ msg _ => (s.queueStep (.ret none)).map (fun u => { u with loop := .got msg })
    | _, _                   => none
  | .handle =>
    match s.loop with
    | .got _ => some { s with loop := .head }
    | _      => none

def machine (ι : Type) {τ : Type} (P : τ → Type) [DecidableEq ι] [Fintype ι] :
    Machine (Delivery ι P) (DeliveryAct ι P) where
  init :=
    { queue := { queue := [], pc := fun _ => .idle }, task := {}, requested := fun _ => false, loop := .exited,
      send := fun _ => .idle, made := fun _ => 0 }
  step := step

/-- The Senders are those of `makeSender(true)`. -/
def notifying (_ : Delivery ι P) : DeliveryAct ι P → Bool
  | .send _ sender _ _ => sender = makeSender true
  | _                  => true

def logged (log : DeliveryLog ι P) (s : Delivery ι P) (a : DeliveryAct ι P) (t : Delivery ι P) : DeliveryLog ι P :=
  match a with
  | .send i sender type message =>
    if sender.messageQueuePtr then { log with sent := Function.update log.sent i (log.sent i ++ [⟨type, message⟩]) }
    else log
  | .push i =>
    match s.send i with
    | .push _ _ w => { log with enqueued := log.enqueued ++ [w] }
    | _           => log
  | .post i =>
    match s.send i with
    | .post type w => { log with notified := log.notified ++ [(type, w)] }
    | _            => log
  | .wait      => { log with popped := log.popped ++ (MessageQueue.result (t.queue.pc none)).toList }
  | .recheck _ => { log with popped := log.popped ++ (MessageQueue.result (t.queue.pc none)).toList }
  | _          => log

/-- A new receiver, nothing sent to it yet. -/
def noLog : DeliveryLog ι P where
  sent     := fun _ => []
  enqueued := []
  notified := []
  popped   := []

/-! ## What the steps can be -/

/-- The steps of the task's loop, and of whoever starts and stops it. -/
def receives : DeliveryAct ι P → Bool
  | .send _ _ _ _  => false
  | .push _        => false
  | .notifyOne _ _ => false
  | .post _        => false
  | _              => true

theorem queueStep_eq {s u : Delivery ι P} {a : QueueAct (Option ι) (Wrapped ι P)} (h : s.queueStep a = some u) :
    ∃ q, s.queue.step a = some q ∧ u = { s with queue := q } := by
  obtain ⟨q, hq, rfl⟩ := Option.map_eq_some_iff.1 h
  exact ⟨q, hq, rfl⟩

/-- **What a step of a Send can be**; the rest are the receiver's. -/
theorem step_cases {s t : Delivery ι P} {a : DeliveryAct ι P} (hst : s.step a = some t) :
    (∃ i sender type message, a = .send i sender type message ∧ s.send i = .idle ∧
      t = s.sendStep i sender type message) ∨
    (∃ i sender type w q, a = .push i ∧ s.send i = .push sender type w ∧
      s.queue.step (.push (some i) (some w)) = some q ∧
      t = ({ s with queue := q } : Delivery ι P).setSend i (.notifyOne sender type w)) ∨
    (∃ i target sender type w q, a = .notifyOne i target ∧ s.send i = .notifyOne sender type w ∧
      s.queue.step (.notifyOne (some i) target) = some q ∧
      t = ({ s with queue := q } : Delivery ι P).setSend i (if sender.postNotify then .post type w else .idle)) ∨
    (∃ i type w, a = .post i ∧ s.send i = .post type w ∧ t = s.setSend i .idle) ∨
    receives a = true := by
  cases a with
  | send i sender type message =>
    simp only [step] at hst
    split at hst
    · rename_i hpc; cases hst; exact .inl ⟨i, sender, type, message, rfl, hpc, rfl⟩
    · cases hst
  | push i =>
    simp only [step] at hst
    split at hst
    · rename_i sender type w hpc
      obtain ⟨u, hu, rfl⟩ := Option.map_eq_some_iff.1 hst
      obtain ⟨q, hq, rfl⟩ := queueStep_eq hu
      exact .inr (.inl ⟨i, sender, type, w, q, rfl, hpc, hq, rfl⟩)
    · cases hst
  | notifyOne i target =>
    simp only [step] at hst
    split at hst
    · rename_i sender type w hpc
      obtain ⟨u, hu, rfl⟩ := Option.map_eq_some_iff.1 hst
      obtain ⟨q, hq, rfl⟩ := queueStep_eq hu
      exact .inr (.inr (.inl ⟨i, target, sender, type, w, q, rfl, hpc, hq, rfl⟩))
    · cases hst
  | post i =>
    simp only [step] at hst
    split at hst
    · rename_i type w hpc
      cases hst; exact .inr (.inr (.inr (.inl ⟨i, type, w, rfl, hpc, rfl⟩)))
    · cases hst
  | _ => exact .inr (.inr (.inr (.inr rfl)))

/-- The message the loop has popped and not yet handled. -/
def inHand (s : Delivery ι P) : Option (Wrapped ι P) :=
  match s.loop with
  | .waiting => MessageQueue.result (s.queue.pc none)
  | .got msg => msg
  | _        => none

/-- **What a step of the receiver can be**: it leaves the queue alone, checks it, is woken or returns from its wait. -/
theorem receive_cases {s t : Delivery ι P} {a : DeliveryAct ι P} (ha : receives a = true) (hst : s.step a = some t) :
    t.send = s.send ∧ t.made = s.made ∧
    ((t.queue = s.queue ∧ (t.inHand = s.inHand ∨ t.inHand = none) ∧ ∀ log, logged log s a t = log) ∨
    (∃ b c timedOut, s.queue.step b = some t.queue ∧ (∀ i msg, b ≠ .push i msg) ∧
      t.queue = s.queue.check none c timedOut ∧ t.loop = .waiting ∧
      ∀ log, logged log s a t =
        { log with popped := log.popped ++ (MessageQueue.result (t.queue.pc none)).toList }) ∨
    (s.queue.step (.wake none) = some t.queue ∧ s.loop = .waiting ∧ t.loop = .waiting ∧ ∀ log, logged log s a t = log) ∨
    (s.queue.step (.ret none) = some t.queue ∧ t.inHand = s.inHand ∧ ∀ log, logged log s a t = log)) := by
  cases a with
  | send i sender type message => cases ha
  | push i => cases ha
  | notifyOne i target => cases ha
  | post i => cases ha
  | start token ok =>
    simp only [step] at hst
    split at hst
    · cases hst; exact ⟨rfl, rfl, .inl ⟨rfl, .inr rfl, fun _ => rfl⟩⟩
    · cases hst; exact ⟨rfl, rfl, .inl ⟨rfl, .inl rfl, fun _ => rfl⟩⟩
  | stop => cases hst; exact ⟨rfl, rfl, .inl ⟨rfl, .inl rfl, fun _ => rfl⟩⟩
  | requestStop k => cases hst; exact ⟨rfl, rfl, .inl ⟨rfl, .inl rfl, fun _ => rfl⟩⟩
  | test =>
    simp only [step] at hst
    split at hst
    · split at hst
      · cases hst; exact ⟨rfl, rfl, .inl ⟨rfl, .inr rfl, fun _ => rfl⟩⟩
      · cases hst; exact ⟨rfl, rfl, .inl ⟨rfl, .inr rfl, fun _ => rfl⟩⟩
    · cases hst
  | wait =>
    simp only [step] at hst
    split at hst
    · obtain ⟨u, hu, rfl⟩ := Option.map_eq_some_iff.1 hst
      obtain ⟨q, hq, rfl⟩ := queueStep_eq hu
      refine ⟨rfl, rfl, .inr (.inl ⟨_, .waitFor, false, hq, fun i msg hb => (by cases hb), ?_, rfl, fun _ => rfl⟩)⟩
      exact MessageQueue.call_step hq
    · cases hst
  | wake =>
    simp only [step] at hst
    split at hst
    · rename_i hloop
      obtain ⟨q, hq, rfl⟩ := queueStep_eq hst
      exact ⟨rfl, rfl, .inr (.inr (.inl ⟨hq, hloop, hloop, fun _ => rfl⟩))⟩
    · cases hst
  | recheck timedOut =>
    simp only [step] at hst
    split at hst
    · rename_i hloop
      obtain ⟨q, hq, rfl⟩ := queueStep_eq hst
      obtain ⟨c, heq⟩ := MessageQueue.recheck_step hq
      exact ⟨rfl, rfl, .inr (.inl ⟨_, c, timedOut, hq, fun i msg hb => (by cases hb), heq, hloop, fun _ => rfl⟩)⟩
    · cases hst
  | ret =>
    simp only [step] at hst
    split at hst
    · rename_i hloop hret
      obtain ⟨u, hu, rfl⟩ := Option.map_eq_some_iff.1 hst
      obtain ⟨q, hq, rfl⟩ := queueStep_eq hu
      refine ⟨rfl, rfl, .inr (.inr (.inr ⟨hq, ?_, fun _ => rfl⟩))⟩
      simp only [inHand, hloop, hret, MessageQueue.result]
    · cases hst
  | handle =>
    simp only [step] at hst
    split at hst
    · cases hst; exact ⟨rfl, rfl, .inl ⟨rfl, .inr rfl, fun _ => rfl⟩⟩
    · cases hst

/-! ## The queue -/

/-- Every message pushed has been popped or is in the queue, in order; the loop has the last one popped in its hand. -/
structure Flows (s : Delivery ι P) (log : DeliveryLog ι P) : Prop where
  nonNull : s.queue.AllMessages (fun msg => msg ≠ none)
  flow    : log.enqueued = log.popped ++ s.queue.contents
  hand    : ∀ w, s.inHand = some w → log.popped.getLast? = some w

theorem Flows.receive {s t : Delivery ι P} {log : DeliveryLog ι P} {a : DeliveryAct ι P} (h : s.Flows log)
    (ha : receives a = true) (hst : s.step a = some t) : t.Flows (logged log s a t) := by
  obtain ⟨-, -, ⟨hq, hhand, hlog⟩ | ⟨b, c, timedOut, hstep, hb, hq, hloop, hlog⟩ | ⟨hstep, hloop, hloop', hlog⟩ |
    ⟨hstep, hhand, hlog⟩⟩ := receive_cases ha hst
  · rw [hlog]
    refine ⟨hq ▸ h.nonNull, hq ▸ h.flow, fun w hw => ?_⟩
    rcases hhand with heq | heq
    · exact h.hand w (heq ▸ hw)
    · rw [heq] at hw; cases hw
  · rw [hlog]
    obtain ⟨hflow, -⟩ := s.queue.check_flow none c timedOut
    refine ⟨h.nonNull.step (fun i msg he => absurd he (hb i msg)) hstep, ?_, fun w hw => ?_⟩
    · rw [List.append_assoc, hq, hflow]
      exact h.flow
    · simp only [inHand, hloop] at hw
      rw [hw]
      exact List.getLast?_concat
  · rw [hlog]
    obtain ⟨hcontents, hresult⟩ := MessageQueue.notify_flow (a := .wake none) rfl rfl hstep
    refine ⟨h.nonNull.step (fun i msg he => by cases he) hstep, by rw [hcontents]; exact h.flow, fun w hw => ?_⟩
    refine h.hand w ?_
    simp only [inHand, hloop, hloop'] at hw ⊢
    rw [← hresult]; exact hw
  · rw [hlog]
    obtain ⟨hcontents, -⟩ := MessageQueue.ret_flow hstep
    refine ⟨h.nonNull.step (fun i msg he => by cases he) hstep, by rw [hcontents]; exact h.flow, fun w hw => ?_⟩
    exact h.hand w (hhand ▸ hw)

omit [DecidableEq ι] [Fintype ι] in
/-- A sender's step at the queue leaves what the loop holds. -/
theorem inHand_eq {s : Delivery ι P} {q : MessageQueue (Option ι) (Wrapped ι P)} {f : ι → SendPc ι P}
    (h : MessageQueue.result (q.pc none) = MessageQueue.result (s.queue.pc none)) :
    ({ s with queue := q, send := f } : Delivery ι P).inHand = s.inHand := by
  unfold inHand
  dsimp only
  rw [h]

theorem flows_step {s t : Delivery ι P} {log : DeliveryLog ι P} {a : DeliveryAct ι P} (h : s.Flows log)
    (hst : s.step a = some t) : t.Flows (logged log s a t) := by
  rcases step_cases hst with ⟨i, sender, type, message, rfl, -, rfl⟩ | ⟨i, sender, type, w, q, rfl, hpc, hq, rfl⟩ |
    ⟨i, target, sender, type, w, q, rfl, hpc, hq, rfl⟩ | ⟨i, type, w, rfl, hpc, rfl⟩ | ha
  · cases hbound : sender.messageQueuePtr with
    | true =>
      simp only [logged, sendStep, hbound, if_true]
      exact ⟨h.nonNull, h.flow, h.hand⟩
    | false =>
      simp only [logged, sendStep, hbound, Bool.false_eq_true, if_false]
      exact h
  · obtain ⟨hcontents, hresult⟩ := MessageQueue.push_flow hq
    simp only [logged, hpc]
    refine ⟨h.nonNull.step (fun j msg he => by cases he; exact Option.some_ne_none w) hq, ?_, fun v hv => ?_⟩
    · show log.enqueued ++ [w] = log.popped ++ q.contents
      rw [hcontents, h.flow, List.append_assoc]; rfl
    · exact h.hand v (inHand_eq (hresult none) ▸ hv)
  · obtain ⟨hcontents, hresult⟩ := MessageQueue.notify_flow (a := .notifyOne (some i) target) rfl rfl hq
    refine ⟨h.nonNull.step (fun j msg he => by cases he) hq, ?_, fun v hv => ?_⟩
    · show log.enqueued = log.popped ++ q.contents
      rw [hcontents]; exact h.flow
    · exact h.hand v (inHand_eq (hresult none) ▸ hv)
  · simp only [logged, hpc]
    exact ⟨h.nonNull, h.flow, h.hand⟩
  · exact h.receive ha hst

/-! ## The senders -/

/-- The message is what the Send it names was called with. -/
def Made (log : DeliveryLog ι P) (w : Wrapped ι P) : Prop :=
  (log.sent w.send.1)[w.send.2]? = some ⟨w.type, w.contents⟩

/-- What thread `i` owes: before its push, a message nobody has seen; after it, the callback for a message pushed. -/
def Owes (log : DeliveryLog ι P) (i : ι) : SendPc ι P → Prop
  | .idle                    => True
  | .push sender type w      =>
    sender = makeSender true ∧ type = w.type ∧ w.send.1 = i ∧ Made log w ∧ w.send ∉ log.enqueued.map Wrapped.send
  | .notifyOne sender type w =>
    sender = makeSender true ∧ type = w.type ∧ w.send.1 = i ∧ w ∈ log.enqueued ∧
      w.send ∉ log.notified.map (fun n => n.2.send)
  | .post type w             =>
    type = w.type ∧ w.send.1 = i ∧ w ∈ log.enqueued ∧ w.send ∉ log.notified.map (fun n => n.2.send)

/-- The callbacks a thread has still to make for a message it has pushed. -/
def owed : SendPc ι P → Nat
  | .notifyOne _ _ _ => 1
  | .post _ _        => 1
  | _                => 0

structure Accounts (s : Delivery ι P) (log : DeliveryLog ι P) : Prop where
  made         : ∀ i, (log.sent i).length = s.made i
  owes         : ∀ i, Owes log i (s.send i)
  enqueued     : ∀ w ∈ log.enqueued, Made log w
  enqueuedOnce : (log.enqueued.map Wrapped.send).Nodup
  notified     : ∀ n ∈ log.notified, n.2 ∈ log.enqueued ∧ n.1 = n.2.type
  notifiedOnce : (log.notified.map (fun n => n.2.send)).Nodup
  balance      : log.enqueued.length = log.notified.length + tally owed s.send

omit [DecidableEq ι] [Fintype ι] in
/-- What the log gains of other threads' messages is nothing to what a thread owes. -/
theorem Owes.mono {log log' : DeliveryLog ι P} {i : ι} {c : SendPc ι P} (h : Owes log i c)
    (hsent : ∀ w, Made log w → Made log' w) (henq : ∀ w ∈ log.enqueued, w ∈ log'.enqueued)
    (hnew : ∀ w ∈ log'.enqueued, w.send.1 = i → w ∈ log.enqueued)
    (hnot : ∀ n ∈ log'.notified, n.2.send.1 = i → n ∈ log.notified) : Owes log' i c := by
  have hfresh : ∀ w : Wrapped ι P, w.send.1 = i → w.send ∉ log.enqueued.map Wrapped.send →
      w.send ∉ log'.enqueued.map Wrapped.send := by
    intro w hi hno hmem
    obtain ⟨v, hv, heq⟩ := List.mem_map.1 hmem
    exact hno (List.mem_map.2 ⟨v, hnew v hv (by rw [heq]; exact hi), heq⟩)
  have hquiet : ∀ w : Wrapped ι P, w.send.1 = i → w.send ∉ log.notified.map (fun n => n.2.send) →
      w.send ∉ log'.notified.map (fun n => n.2.send) := by
    intro w hi hno hmem
    obtain ⟨n, hn, heq⟩ := List.mem_map.1 hmem
    exact hno (List.mem_map.2 ⟨n, hnot n hn (by rw [heq]; exact hi), heq⟩)
  cases c with
  | idle => trivial
  | push sender type w =>
    obtain ⟨hsender, htype, hi, hmade, hno⟩ := h
    exact ⟨hsender, htype, hi, hsent w hmade, hfresh w hi hno⟩
  | notifyOne sender type w =>
    obtain ⟨hsender, htype, hi, hmem, hno⟩ := h
    exact ⟨hsender, htype, hi, henq w hmem, hquiet w hi hno⟩
  | post type w =>
    obtain ⟨htype, hi, hmem, hno⟩ := h
    exact ⟨htype, hi, henq w hmem, hquiet w hi hno⟩

omit [Fintype ι] in
/-- A Send begins: its message is a new one. -/
theorem made_send {log : DeliveryLog ι P} {i : ι} {x : Sigma P} {w : Wrapped ι P} (h : Made log w) :
    Made { log with sent := Function.update log.sent i (log.sent i ++ [x]) } w := by
  unfold Made at h ⊢
  dsimp only
  by_cases hi : w.send.1 = i
  · rw [hi] at h ⊢
    rw [Function.update_self, List.getElem?_append_left (List.getElem?_eq_some_iff.1 h).1]
    exact h
  · rw [Function.update_of_ne hi]
    exact h

theorem Accounts.send {s : Delivery ι P} {log : DeliveryLog ι P} (h : s.Accounts log) {i : ι} {type : τ}
    (hpc : s.send i = .idle) (message : P type) :
    (s.sendStep i (makeSender true) type message).Accounts
      { log with sent := Function.update log.sent i (log.sent i ++ [⟨type, message⟩]) } := by
  have hnew : ∀ w ∈ log.enqueued, w.send ≠ (i, s.made i) := by
    intro w hw heq
    have hmade := h.enqueued w hw
    unfold Made at hmade
    rw [heq] at hmade
    have := (List.getElem?_eq_some_iff.1 hmade).1
    rw [h.made i] at this
    exact Nat.lt_irrefl _ this
  refine ⟨?_, ?_, fun w hw => made_send (h.enqueued w hw), h.enqueuedOnce, h.notified, h.notifiedOnce, ?_⟩
  · intro j
    show (Function.update log.sent i _ j).length = Function.update s.made i _ j
    by_cases hj : j = i
    · rw [hj, Function.update_self, Function.update_self, List.length_append, h.made i]; rfl
    · rw [Function.update_of_ne hj, Function.update_of_ne hj]
      exact h.made j
  · refine (Function.forall_update_iff s.send (fun j c => Owes _ j c)).2 ⟨⟨rfl, rfl, rfl, ?_, ?_⟩, fun j _ => ?_⟩
    · show (Function.update log.sent i _ i)[s.made i]? = _
      rw [Function.update_self, ← h.made i, List.getElem?_concat_length]
    · intro hmem
      obtain ⟨w, hw, heq⟩ := List.mem_map.1 hmem
      exact hnew w hw heq
    · exact (h.owes j).mono (fun _ => made_send) (fun _ hw => hw) (fun _ hw _ => hw) (fun _ hn _ => hn)
  · show _ = log.notified.length + tally owed (Function.update s.send i _)
    rw [tally_update_of_eq (by rw [hpc]; rfl)]
    exact h.balance

theorem Accounts.push {s : Delivery ι P} {log : DeliveryLog ι P} (h : s.Accounts log) {i : ι} {sender : Sender}
    {type : τ} {w : Wrapped ι P} (hpc : s.send i = .push sender type w)
    (q : MessageQueue (Option ι) (Wrapped ι P)) :
    (({ s with queue := q } : Delivery ι P).setSend i (.notifyOne sender type w)).Accounts
      { log with enqueued := log.enqueued ++ [w] } := by
  have hi := h.owes i
  rw [hpc] at hi
  obtain ⟨hsender, htype, hown, hmade, hfresh⟩ := hi
  refine ⟨h.made, ?_, fun v hv => ?_, ?_, fun n hn => ?_, h.notifiedOnce, ?_⟩
  · refine (Function.forall_update_iff s.send (fun j c => Owes _ j c)).2
      ⟨⟨hsender, htype, hown, List.mem_append_right _ (List.mem_singleton_self w), fun hmem => ?_⟩, fun j hj => ?_⟩
    · obtain ⟨n, hn, heq⟩ := List.mem_map.1 hmem
      exact hfresh (List.mem_map.2 ⟨n.2, (h.notified n hn).1, heq⟩)
    · refine (h.owes j).mono (fun _ hm => hm) (fun _ hv => List.mem_append_left _ hv) (fun v hv hvj => ?_)
        (fun _ hn _ => hn)
      rcases List.mem_append.1 hv with hv | hv
      · exact hv
      · rw [List.mem_singleton.1 hv, hown] at hvj
        exact absurd hvj.symm hj
  · rcases List.mem_append.1 hv with hv | hv
    · exact h.enqueued v hv
    · rw [List.mem_singleton.1 hv]; exact hmade
  · show ((log.enqueued ++ [w]).map Wrapped.send).Nodup
    rw [List.map_append, List.nodup_append_comm]
    exact List.nodup_cons.2 ⟨hfresh, h.enqueuedOnce⟩
  · exact ⟨List.mem_append_left _ (h.notified n hn).1, (h.notified n hn).2⟩
  · have htally := tally_update owed s.send i (.notifyOne sender type w)
    rw [hpc] at htally
    simp only [owed] at htally
    have := h.balance
    show (log.enqueued ++ [w]).length = log.notified.length + tally owed (Function.update s.send i _)
    rw [List.length_append, List.length_singleton]
    omega

theorem Accounts.notifyOne {s : Delivery ι P} {log : DeliveryLog ι P} (h : s.Accounts log) {i : ι} {sender : Sender}
    {type : τ} {w : Wrapped ι P} (hpc : s.send i = .notifyOne sender type w)
    (q : MessageQueue (Option ι) (Wrapped ι P)) :
    (({ s with queue := q } : Delivery ι P).setSend i (if sender.postNotify then .post type w else .idle)).Accounts
      log := by
  have hi := h.owes i
  rw [hpc] at hi
  obtain ⟨rfl, howes⟩ := hi
  refine ⟨h.made, ?_, h.enqueued, h.enqueuedOnce, h.notified, h.notifiedOnce, ?_⟩
  · exact (Function.forall_update_iff s.send (fun j c => Owes _ j c)).2 ⟨howes, fun j _ => h.owes j⟩
  · show _ = log.notified.length + tally owed (Function.update s.send i _)
    rw [tally_update_of_eq (by rw [hpc]; rfl)]
    exact h.balance

theorem Accounts.post {s : Delivery ι P} {log : DeliveryLog ι P} (h : s.Accounts log) {i : ι} {type : τ}
    {w : Wrapped ι P} (hpc : s.send i = .post type w) :
    (s.setSend i .idle).Accounts { log with notified := log.notified ++ [(type, w)] } := by
  have hi := h.owes i
  rw [hpc] at hi
  obtain ⟨htype, hown, hmem, hquiet⟩ := hi
  refine ⟨h.made, ?_, h.enqueued, h.enqueuedOnce, fun n hn => ?_, ?_, ?_⟩
  · refine (Function.forall_update_iff s.send (fun j c => Owes _ j c)).2 ⟨trivial, fun j hj => ?_⟩
    refine (h.owes j).mono (fun _ hm => hm) (fun _ hv => hv) (fun _ hv _ => hv) (fun n hn hnj => ?_)
    rcases List.mem_append.1 hn with hn | hn
    · exact hn
    · rw [List.mem_singleton.1 hn, hown] at hnj
      exact absurd hnj.symm hj
  · rcases List.mem_append.1 hn with hn | hn
    · exact h.notified n hn
    · rw [List.mem_singleton.1 hn]; exact ⟨hmem, htype⟩
  · show ((log.notified ++ [(type, w)]).map (fun n => n.2.send)).Nodup
    rw [List.map_append, List.nodup_append_comm]
    exact List.nodup_cons.2 ⟨hquiet, h.notifiedOnce⟩
  · have htally := tally_update owed s.send i .idle
    rw [hpc] at htally
    simp only [owed] at htally
    have := h.balance
    show log.enqueued.length = (log.notified ++ [(type, w)]).length + tally owed (Function.update s.send i _)
    rw [List.length_append, List.length_singleton]
    omega

theorem accounts_step {s t : Delivery ι P} {log : DeliveryLog ι P} {a : DeliveryAct ι P} (h : s.Accounts log)
    (hok : notifying s a = true) (hst : s.step a = some t) : t.Accounts (logged log s a t) := by
  rcases step_cases hst with ⟨i, sender, type, message, rfl, hpc, rfl⟩ | ⟨i, sender, type, w, q, rfl, hpc, -, rfl⟩ |
    ⟨i, target, sender, type, w, q, rfl, hpc, -, rfl⟩ | ⟨i, type, w, rfl, hpc, rfl⟩ | ha
  · obtain rfl : sender = makeSender true := of_decide_eq_true hok
    exact h.send hpc message
  · simp only [logged, hpc]
    exact h.push hpc q
  · exact h.notifyOne hpc q
  · simp only [logged, hpc]
    exact h.post hpc
  · obtain ⟨hsend, hmade, hrest⟩ := receive_cases ha hst
    obtain ⟨popped, hlog⟩ : ∃ popped, logged log s a t = { log with popped := popped } := by
      rcases hrest with ⟨-, -, hlog⟩ | ⟨b, c, timedOut, -, -, -, -, hlog⟩ | ⟨-, -, -, hlog⟩ | ⟨-, -, hlog⟩
      · exact ⟨_, hlog log⟩
      · exact ⟨_, hlog log⟩
      · exact ⟨_, hlog log⟩
      · exact ⟨_, hlog log⟩
    rw [hlog]
    refine ⟨fun i => hmade ▸ h.made i, fun i => ?_, h.enqueued, h.enqueuedOnce, h.notified, h.notifiedOnce, ?_⟩
    · rw [hsend]
      exact (h.owes i).mono (fun _ hm => hm) (fun _ hw => hw) (fun _ hw _ => hw) (fun _ hn _ => hn)
    · rw [hsend]
      exact h.balance

theorem reachable_accounts {s : Delivery ι P} {log : DeliveryLog ι P}
    (hs : (((machine ι P).only notifying).withHistory noLog logged).Reachable (s, log)) :
    s.Flows log ∧ s.Accounts log := by
  refine Machine.Reachable.history_invariant (I := fun (s : Delivery ι P) log => s.Flows log ∧ s.Accounts log)
    (J := fun _ => True) (fun _ _ => trivial) ?_ ?_ hs
  · refine ⟨⟨MessageQueue.allMessages_init _, rfl, fun w hw => (by cases hw)⟩, ⟨fun _ => rfl, fun _ => trivial,
      fun w hw => (by cases hw), List.nodup_nil, fun n hn => (by cases hn), List.nodup_nil, ?_⟩⟩
    have hzero : tally owed (fun _ : ι => (.idle : SendPc ι P)) = 0 := tally_eq_zero (fun _ => rfl)
    show 0 = 0 + tally owed (fun _ : ι => (.idle : SendPc ι P))
    rw [hzero]
  · intro s log a t _ h hst
    obtain ⟨hok, hst⟩ := Machine.only_step.1 hst
    exact ⟨flows_step h.1 hst, accounts_step h.2 hok hst⟩

omit [DecidableEq ι] [Fintype ι] in
/-- **The type test finds what was sent, as what it was sent.** -/
theorem downcast_eq [DecidableEq τ] {log : DeliveryLog ι P} {w : Wrapped ι P} (h : Made log w) (type : τ)
    (message : P type) :
    w.downcast type = some message ↔ (log.sent w.send.1)[w.send.2]? = some ⟨type, message⟩ := by
  obtain ⟨send, type', contents⟩ := w
  unfold Made at h
  rw [h]
  unfold Wrapped.downcast
  dsimp only
  constructor
  · intro heq
    split at heq
    · rename_i htype
      subst htype
      cases heq
      rfl
    · cases heq
  · intro heq
    cases heq
    rw [dif_pos rfl]

/-- **A notifying receiver's accounts balance**, for any number of threads that send payloads of any types through
Senders of `makeSender(true)`, in any interleaving with the task's loop, its stops and its starts: each Send has pushed
its message at most once, and called back at most once, with that message and its type and only after the push; what has
been popped and what is in the queue is what has been pushed, in order; a message is of the type it was sent with, and
has what was sent; and while no Send is in progress there have been as many callbacks as there are messages popped and
in the queue. -/
theorem delivered [DecidableEq τ] {s : Delivery ι P} {log : DeliveryLog ι P}
    (hs : (((machine ι P).only notifying).withHistory noLog logged).Reachable (s, log)) :
    (log.enqueued.map Wrapped.send).Nodup ∧ (log.notified.map (fun n => n.2.send)).Nodup ∧
    (∀ n ∈ log.notified, n.2 ∈ log.enqueued ∧ n.1 = n.2.type) ∧
    log.enqueued.map some = log.popped.map some ++ s.queue.queue ∧ log.popped.Nodup ∧
    (∀ w, s.loop = .got (some w) → log.popped.getLast? = some w) ∧
    (∀ w ∈ log.enqueued, ∀ type message,
      w.downcast type = some message ↔ (log.sent w.send.1)[w.send.2]? = some ⟨type, message⟩) ∧
    ((∀ i, s.send i = .idle) → log.notified.length = log.popped.length + s.queue.queue.length) := by
  obtain ⟨hflows, haccounts⟩ := reachable_accounts hs
  have hqueue := hflows.nonNull.queue_eq
  refine ⟨haccounts.enqueuedOnce, haccounts.notifiedOnce, haccounts.notified, ?_, ?_, fun w hw => ?_,
    fun w hw => downcast_eq (haccounts.enqueued w hw), fun hidle => ?_⟩
  · rw [hflows.flow, List.map_append, ← hqueue]
  · have honce := haccounts.enqueuedOnce.of_map
    rw [hflows.flow] at honce
    exact honce.of_append_left
  · exact hflows.hand w (by simp only [inHand, hw])
  · have hzero : tally owed s.send = 0 := tally_eq_zero (fun i => by rw [hidle i]; rfl)
    have hbalance := haccounts.balance
    rw [hzero, hflows.flow, List.length_append] at hbalance
    rw [hqueue, List.length_map]
    exact hbalance.symm

/-- Two threads send a string and a number; the string is popped before its callback, the number waits for the task to
be started again. -/
theorem delivered_restarted : ∃ (s : Delivery (Fin 2) (fun isText : Bool => cond isText String Nat))
    (log : DeliveryLog (Fin 2) (fun isText : Bool => cond isText String Nat)),
    s.loop = .head ∧ log.popped.length = 1 ∧ log.notified.length = 2 ∧ s.queue.queue.length = 1 ∧
      ∀ w ∈ log.popped, w.downcast true = some "Hello" ∧ w.downcast false = none := by
  let M := ((machine (Fin 2) (fun isText : Bool => cond isText String Nat)).only notifying).withHistory noLog logged
  obtain ⟨p, hrun⟩ : ∃ p, M.runFrom M.init
      [.start none true, .test, .wait, .send 0 (makeSender true) true "Hello", .push 0, .notifyOne 0 (some none),
       .recheck false, .ret, .send 1 (makeSender true) false (7 : Nat), .push 1, .notifyOne 1 none, .post 1, .post 0,
       .handle, .stop, .test, .start none true] = some p := ⟨_, rfl⟩
  have hloop : p.1.loop = .head := by cases hrun; rfl
  have hpopped : p.2.popped = [⟨(0, 0), true, "Hello"⟩] := by cases hrun; rfl
  have hsent : p.2.sent 0 = [⟨true, "Hello"⟩] := by cases hrun; rfl
  have henqueued : (⟨(0, 0), true, "Hello"⟩ : Wrapped (Fin 2) (fun isText : Bool => cond isText String Nat)) ∈
      p.2.enqueued := by cases hrun; exact List.mem_cons_self ..
  have hqueue : p.1.queue.queue.length = 1 := by cases hrun; rfl
  have hidle : ∀ i, p.1.send i = .idle := by
    intro i
    match i with
    | 0 => cases hrun; rfl
    | 1 => cases hrun; rfl
  obtain ⟨-, -, -, -, -, -, hcast, hbalance⟩ := delivered (Machine.reachable_of_run _ hrun)
  have hlength : p.2.popped.length = 1 := by rw [hpopped]; rfl
  refine ⟨p.1, p.2, hloop, hlength, ?_, hqueue, fun w hw => ?_⟩
  · rw [hbalance hidle, hlength, hqueue]
  · rw [hpopped] at hw
    obtain rfl := List.mem_singleton.1 hw
    exact ⟨(hcast _ henqueued true "Hello").2 (by rw [hsent]; rfl), rfl⟩

end Delivery
end ThreadMessaging

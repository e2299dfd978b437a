import Mathlib.Tactic.NormNum
import ThreadMessaging.ChainObserver
/-!
# What is in the chain's messages

A property of messages that every Send has, if the message it is made of has it, all messages in the chain have
(`Keeps.reachable`).  So each of them is one that a task makes, of an event of the observer (`messages_made`).  The two
fan-outs are accounted for by the events' names: the observer's own queue has a MirrorEvent for each event that the
application observer is done with (`mirrors_kept`), and the processing task throws away a DirectEvent for each event
(`directs_discarded`).  The events are numbered from 1 in each run of the observer, as far as an `int` counts
(`events_numbered`).
-/
namespace ThreadMessaging

/-- The FileEvent is one the observer makes. -/
def IsEvent (fe : FileEvent) : Prop := ∃ count now, fe = fileEvent count now

def appEventOf (fe : FileEvent) : AppEvent :=
  { appName := "App1", eventDescription := fe.fileName, originalFile := fe }

def processedOf (fe : FileEvent) : ProcessedData :=
  { dataId := "DATA-" ++ toString fe.fileSize.toNat, processingResult := 42, originalAppEvent := appEventOf fe }

def transformedOf (fe : FileEvent) : TransformedData :=
  { transformationType := "MathTransform", value := 63, originalData := processedOf fe }

/-- **The Sends of each task**, by receiver and message. -/
def MadeBy : ChainTask → ChainTask × Payload → Prop
  | .observerIncoming, (.appObserver, .fileEvent fe)      => IsEvent fe
  | .observerIncoming, (.processing, .directEvent _)      => True
  | .appObserver, (.observerIncoming, .mirrorEvent me)    => ∃ fe, IsEvent fe ∧ me.message = fe.fileName
  | .appObserver, (.processing, .appEvent ae)             => ∃ fe, IsEvent fe ∧ ae = appEventOf fe
  | .processing, (.transformation, .processedData pd)     => ∃ fe, IsEvent fe ∧ pd = processedOf fe
  | .transformation, (.result, .transformedData td)       => ∃ fe, IsEvent fe ∧ td = transformedOf fe
  | _, _                                                  => False

namespace Chain

/-- **A property of Sends, and of messages by receiver, that the threads keep.** -/
structure Keeps (Out : ChainTask → ChainTask × Payload → Prop) (In : ChainTask → Payload → Prop) : Prop where
  emits   : ∀ count now, ∀ e ∈ observerSends count now, Out .observerIncoming e
  handles : ∀ mc t p sends, In t p → handles mc t p = some sends → ∀ e ∈ sends, Out t e
  arrives : ∀ t e, Out t e → In e.1 e.2

/-- All that is in the chain. -/
def Holds (Out : ChainTask → ChainTask × Payload → Prop) (In : ChainTask → Payload → Prop) (s : Chain) : Prop :=
  (∀ t, ∀ e ∈ s.outbox t, Out t e) ∧ ∀ t, ∀ p ∈ s.inbox t, In t p

section Rule

variable {Out : ChainTask → ChainTask × Payload → Prop} {In : ChainTask → Payload → Prop} {s s' : Chain}

theorem holds_outbox {t : ChainTask} {l : List (ChainTask × Payload)} (h : Holds Out In s)
    (hout : s'.outbox = Function.update s.outbox t l) (hl : ∀ e ∈ l, Out t e) : ∀ v, ∀ e ∈ s'.outbox v, Out v e := by
  rw [hout]
  exact (Function.forall_update_iff s.outbox (fun v l => ∀ e ∈ l, Out v e)).2 ⟨hl, fun v _ => h.1 v⟩

theorem holds_inbox {t : ChainTask} {l : List Payload} (h : Holds Out In s)
    (hin : s'.inbox = Function.update s.inbox t l) (hl : ∀ p ∈ l, In t p) : ∀ v, ∀ p ∈ s'.inbox v, In v p := by
  rw [hin]
  exact (Function.forall_update_iff s.inbox (fun v l => ∀ p ∈ l, In v p)).2 ⟨hl, fun v _ => h.2 v⟩

theorem Keeps.moves (hk : Keeps Out In) (h : Holds Out In s) (hm : Moves s s') : Holds Out In s' := by
  cases hm with
  | quiet hin hout => exact ⟨by rw [hout]; exact h.1, by rw [hin]; exact h.2⟩
  | handled t p rest sends hh hin hin' hout hout' =>
    have hp : In t p := h.2 t p (by rw [hin]; exact List.mem_cons_self ..)
    have hrest : ∀ q ∈ rest, In t q := fun q hq => h.2 t q (by rw [hin]; exact List.mem_cons_of_mem _ hq)
    exact ⟨holds_outbox h hout' (hk.handles _ t p sends hp hh), holds_inbox h hin' hrest⟩
  | discards t p rest hh ht hin hin' hout =>
    have hrest : ∀ q ∈ rest, In t q := fun q hq => h.2 t q (by rw [hin]; exact List.mem_cons_of_mem _ hq)
    exact ⟨by rw [hout]; exact h.1, holds_inbox h hin' hrest⟩
  | emits count now hin hout hout' =>
    exact ⟨holds_outbox h hout' (hk.emits count now), by rw [hin]; exact h.2⟩
  | pushes t r p rest hout hout' hin' =>
    have hp : In r p := hk.arrives t (r, p) (h.1 t (r, p) (by rw [hout]; exact List.mem_cons_self ..))
    have hrest : ∀ e ∈ rest, Out t e := fun e he => h.1 t e (by rw [hout]; exact List.mem_cons_of_mem _ he)
    refine ⟨holds_outbox h hout' hrest, holds_inbox h hin' (fun q hq => ?_)⟩
    rcases List.mem_append.1 hq with hq | hq
    · exact h.2 r q hq
    · obtain rfl := List.mem_singleton.1 hq
      exact hp

/-- **The rule**: what the threads keep holds of all that is in a reachable chain. -/
theorem Keeps.reachable (hk : Keeps Out In) (hs : machine.Reachable s) : Holds Out In s :=
  hs.invariant_of (J := LinkInv) (fun _ hr => (reachable_flowInv hr).1)
    ⟨fun _ e he => (by cases he), fun _ p hp => (by cases hp)⟩
    (fun _ _ _ hl hI hst => hk.moves hI (moves_of_step hl hst))

end Rule

/-! ## Each message is made of an event -/

theorem keeps_madeBy : Keeps MadeBy (fun r p => ∃ t, MadeBy t (r, p)) where
  emits count now e he := by
    rcases List.mem_append.1 he with he | he
    · obtain ⟨r, hr, rfl⟩ := mem_sendTo.1 he
      cases hr
      exact ⟨count, now, rfl⟩
    · obtain ⟨r, hr, rfl⟩ := mem_sendTo.1 he
      cases hr
      trivial
  handles mc t p sends hp hh e he := by
    obtain ⟨u, hp⟩ := hp
    cases t with
    | observerIncoming => cases hh
    | appObserver =>
      cases p with
      | fileEvent fe =>
        have hfe : IsEvent fe := by cases u <;> first | exact hp | cases hp
        obtain rfl := Option.some.inj hh
        rcases List.mem_append.1 he with he | he
        · obtain ⟨r, hr, rfl⟩ := mem_sendTo.1 he
          cases hr
          exact ⟨fe, hfe, rfl⟩
        · obtain ⟨r, hr, rfl⟩ := mem_sendTo.1 he
          cases hr
          exact ⟨fe, hfe, rfl⟩
      | _ => cases hh
    | processing =>
      cases p with
      | appEvent ae =>
        have hae : ∃ fe, IsEvent fe ∧ ae = appEventOf fe := by cases u <;> first | exact hp | cases hp
        obtain ⟨fe, hfe, rfl⟩ := hae
        obtain rfl := Option.some.inj hh
        obtain ⟨r, hr, rfl⟩ := mem_sendTo.1 he
        cases hr
        exact ⟨fe, hfe, rfl⟩
      | _ => cases hh
    | transformation =>
      cases p with
      | processedData pd =>
        have hpd : ∃ fe, IsEvent fe ∧ pd = processedOf fe := by cases u <;> first | exact hp | cases hp
        obtain ⟨fe, hfe, rfl⟩ := hpd
        obtain rfl := Option.some.inj hh
        obtain ⟨r, hr, rfl⟩ := mem_sendTo.1 he
        cases hr
        have hvalue : ((42 : Int) : Rat) * (3 / 2) = 63 := by norm_num
        refine ⟨fe, hfe, ?_⟩
        show TransformedData.mk _ (((42 : Int32).toInt : Rat) * (3 / 2)) _ = _
        rw [show (42 : Int32).toInt = 42 from rfl]
        rw [hvalue]; rfl
      | _ => cases hh
    | result =>
      rw [handles_result hh] at he
      cases he
  arrives t e he := ⟨t, he⟩

/-- The observer's first event, gone through the chain up to its result, with its MirrorEvent and its DirectEvent. -/
def oneEvent : List ChainAct :=
  [.manager .initTestChain, .manager (.start true), .manager (.start true), .manager (.start true),
   .manager (.start true), .manager (.start true), .manager .done,
   -- the observer's wait for a command times out
   .go .observerIncoming 0, .command .lock, .command (.waiter .consumer), .command (.waiter (.consumerLoads 0)),
   .command .checked, .command .block, .command .wake, .command (.relock true), .command (.waiter .consumer),
   .command (.waiter (.consumerLoads 0)), .command .checked,
   -- it emits its event
   .go .observerIncoming 1, .go .observerIncoming 2, .go .observerIncoming 3, .go .observerIncoming 4,
   .go .observerIncoming 7, .go .observerIncoming 8, .notify .observerIncoming none, .go .observerIncoming 9,
   .notify .observerIncoming none, .go .observerIncoming 10,
   -- which the application observer mirrors and sends on
   .go .appObserver 0, .go .appObserver 0, .go .appObserver 0, .go .appObserver 0, .notify .appObserver none,
   .go .appObserver 0, .notify .appObserver none, .go .appObserver 0,
   -- the processing task throws away the DirectEvent and sends on the AppEvent
   .go .processing 0, .go .processing 0, .go .processing 0,
   .go .processing 0, .go .processing 0, .go .processing 0, .go .processing 0, .notify .processing none,
   .go .transformation 0, .go .transformation 0, .go .transformation 0, .go .transformation 0,
   .notify .transformation none]

/-- **Every message in the chain is one that a task makes, of an event of the observer**; the result task is sent the
event's number in three places, and the same value for every event. -/
theorem messages_made {s : Chain} (hs : machine.Reachable s) :
    (∀ t, ∀ e ∈ s.outbox t, MadeBy t e) ∧ (∀ t, ∀ p ∈ s.inbox t, ∃ u, MadeBy u (t, p)) ∧
    ∀ p ∈ s.inbox .result, ∃ (count : Int32) (now : TimePoint), p = .transformedData
      { transformationType := "MathTransform", value := 63
        originalData := { dataId := "DATA-" ++ toString (1024 * BitVec.ofInt 64 count.toInt).toNat
                          processingResult := 42
                          originalAppEvent := { appName := "App1"
                                                eventDescription := "file_" ++ toString count ++ ".txt"
                                                originalFile := fileEvent count now } } } := by
  obtain ⟨hout, hin⟩ := keeps_madeBy.reachable hs
  refine ⟨hout, hin, fun p hp => ?_⟩
  obtain ⟨u, hmade⟩ := hin .result p hp
  have htd : ∃ fe, IsEvent fe ∧ p = .transformedData (transformedOf fe) := by
    cases u <;> cases p <;> first
      | (obtain ⟨fe, hfe, rfl⟩ := hmade; exact ⟨fe, hfe, rfl⟩)
      | cases hmade
  obtain ⟨fe, ⟨count, now, rfl⟩, rfl⟩ := htd
  exact ⟨count, now, rfl⟩

theorem messages_made_oneEvent : ∃ s : Chain, machine.Reachable s ∧ (s.inbox .result).length = 1 ∧
    ∀ p ∈ s.inbox .result, ∃ u, MadeBy u (.result, p) := by
  obtain ⟨s, hrun⟩ : ∃ s, machine.runFrom machine.init oneEvent = some s := ⟨_, rfl⟩
  have hone : (s.inbox .result).length = 1 := by cases hrun; rfl
  obtain ⟨-, hin, -⟩ := messages_made (Machine.reachable_of_run _ hrun)
  exact ⟨s, Machine.reachable_of_run _ hrun, hone, hin .result⟩

/-! ## The fan-outs -/

/-- The names in the messages of each kind. -/
def fileNames (p : Payload) : List String := p.carried.map FileEvent.fileName

def mirrorNames : Payload → List String
  | .mirrorEvent me => [me.message]
  | _               => []

/-- A DirectEvent has the number of its event. -/
def directNames : Payload → List String
  | .directEvent de => ["file_" ++ toString de.counter ++ ".txt"]
  | _               => []

/-- Who sends what to whom. -/
theorem madeBy_cases {t r : ChainTask} {p : Payload} (h : MadeBy t (r, p)) :
    (t = .observerIncoming ∧ r = .appObserver ∧ ∃ fe, p = .fileEvent fe) ∨
    (t = .observerIncoming ∧ r = .processing ∧ ∃ de, p = .directEvent de) ∨
    (t = .appObserver ∧ r = .observerIncoming ∧ ∃ me, p = .mirrorEvent me) ∨
    (t ≠ .observerIncoming ∧ r ≠ .observerIncoming ∧ r ≠ .appObserver ∧ mirrorNames p = [] ∧ directNames p = []) := by
  cases t <;> cases r <;> cases p <;> first
    | (cases h; done)
    | exact .inl ⟨rfl, rfl, _, rfl⟩
    | exact .inr (.inl ⟨rfl, rfl, _, rfl⟩)
    | exact .inr (.inr (.inl ⟨rfl, rfl, _, rfl⟩))
    | exact .inr (.inr (.inr ⟨nofun, nofun, nofun, rfl, rfl⟩))

/-- The names in a task's Sends to come. -/
def sends (f : Payload → List String) (s : Chain) (t : ChainTask) : List String := (s.outbox t).flatMap (fun e => f e.2)

def inboxNames (f : Payload → List String) (s : Chain) (t : ChainTask) : List String := (s.inbox t).flatMap f

/-- **The MirrorEvents**: in the observer's queue, then to be sent, then to be made. -/
def mirrors (s : Chain) : List String :=
  inboxNames mirrorNames s .observerIncoming ++ sends mirrorNames s .appObserver ++ inboxNames fileNames s .appObserver

/-- **The DirectEvents**: thrown away, then in the processing task's queue, then to be sent. -/
def directs (s : Chain) : List String :=
  s.discarded.flatMap (fun d => directNames d.2) ++ inboxNames directNames s .processing ++
    sends directNames s .observerIncoming

section Names

variable {s s' : Chain} {f : Payload → List String} {t : ChainTask}

theorem sends_update {l : List (ChainTask × Payload)} (hout : s'.outbox = Function.update s.outbox t l)
    (v : ChainTask) : sends f s' v = if v = t then l.flatMap (fun e => f e.2) else sends f s v := by
  unfold sends
  rw [hout]
  split
  · rename_i hv
    rw [hv, Function.update_self]
  · rename_i hv
    rw [Function.update_of_ne hv]

theorem inboxNames_update {l : List Payload} (hin : s'.inbox = Function.update s.inbox t l) (v : ChainTask) :
    inboxNames f s' v = if v = t then l.flatMap f else inboxNames f s v := by
  unfold inboxNames
  rw [hin]
  split
  · rename_i hv
    rw [hv, Function.update_self]
  · rename_i hv
    rw [Function.update_of_ne hv]

theorem sends_of_eq {l : List (ChainTask × Payload)} (hout : s.outbox t = l) :
    sends f s t = l.flatMap (fun e => f e.2) := by
  unfold sends
  rw [hout]

theorem inboxNames_of_eq {l : List Payload} (hin : s.inbox t = l) : inboxNames f s t = l.flatMap f := by
  unfold inboxNames
  rw [hin]

/-- **No MirrorEvent is lost**: each event sent has one, sent or to be sent. -/
theorem mirrors_moves (hmade : Holds MadeBy (fun r p => ∃ u, MadeBy u (r, p)) s)
    (h : s.mirrors = s.sent.map FileEvent.fileName) (hm : Moves s s') :
    s'.mirrors = s'.sent.map FileEvent.fileName := by
  unfold mirrors at h ⊢
  cases hm with
  | quiet hin hout hsent =>
    unfold inboxNames sends at h ⊢
    rw [hin, hout, hsent, h]
  | emits count now hin hout hout' hsent =>
    rw [sends_update hout', if_neg nofun, hsent, ← h]
    unfold inboxNames
    rw [hin]
  | discards t p rest hh ht hin hin' hout hsent =>
    have hnone : ∀ v, v = .observerIncoming ∨ v = .appObserver → s'.inbox v = s.inbox v := by
      intro v hv
      rw [hin']
      refine Function.update_of_ne ?_ ..
      rintro rfl
      obtain ⟨u, hp⟩ := hmade.2 v p (by rw [hin]; exact List.mem_cons_self ..)
      rcases hv with rfl | rfl
      · exact ht rfl
      · cases p with
        | fileEvent fe => cases hh
        | _ => cases u <;> cases hp
    unfold inboxNames sends at h ⊢
    rw [hnone _ (.inl rfl), hnone _ (.inr rfl), hout, hsent, h]
  | handled t p rest l hh hin hin' hout hout' hsent =>
    rw [sends_update hout', inboxNames_update hin', inboxNames_update hin', hsent, ← h]
    cases t with
    | observerIncoming => cases hh
    | appObserver =>
      cases p with
      | fileEvent fe =>
        obtain rfl := Option.some.inj hh
        rw [if_neg nofun, if_pos rfl, if_pos rfl, sends_of_eq hout, inboxNames_of_eq hin]
        show _ ++ [fe.fileName] ++ _ = _ ++ [] ++ (fe.fileName :: _)
        rw [List.append_nil, List.append_assoc]; rfl
      | _ => cases hh
    | _ => rfl
  | pushes t r p rest hout hout' hin' hsent =>
    have hp : MadeBy t (r, p) := hmade.1 t (r, p) (by rw [hout]; exact List.mem_cons_self ..)
    rw [sends_update hout', inboxNames_update hin', inboxNames_update hin', hsent]
    rcases madeBy_cases hp with ⟨rfl, rfl, fe, rfl⟩ | ⟨rfl, rfl, de, rfl⟩ | ⟨rfl, rfl, me, rfl⟩ |
      ⟨ht, hr, hr', hmir, hdir⟩
    · rw [if_neg nofun, if_neg nofun, if_pos rfl, if_pos rfl, List.map_append, ← h, List.flatMap_append]
      simp only [List.append_assoc]
      rfl
    · rw [if_neg nofun, if_neg nofun, if_neg nofun, if_pos rfl, h]
      exact congrArg (List.map FileEvent.fileName) (List.append_nil _).symm
    · rw [if_pos rfl, if_pos rfl, if_neg nofun, if_neg nofun, ← h, sends_of_eq hout, List.flatMap_append,
        ← inboxNames]
      simp only [List.append_assoc]
      rfl
    · rw [if_neg hr.symm, if_neg hr'.symm, if_neg ht, ← h]
      refine congrArg (_ ++ · ++ _) ?_
      split
      · rename_i hta
        subst hta
        rw [sends_of_eq hout, List.flatMap_cons, hmir]; rfl
      · rfl

/-- **No DirectEvent is lost**: each event sent, or to be sent, has one. -/
theorem directs_moves (hflow : FlowInv s) (hmade : Holds MadeBy (fun r p => ∃ u, MadeBy u (r, p)) s)
    (h : s.directs = s.sent.map FileEvent.fileName ++ sends fileNames s .observerIncoming) (hm : Moves s s') :
    s'.directs = s'.sent.map FileEvent.fileName ++ sends fileNames s' .observerIncoming := by
  unfold directs at h ⊢
  cases hm with
  | quiet hin hout hsent hfin hdis =>
    unfold inboxNames sends at h ⊢
    rw [hin, hout, hsent, hdis, h]
  | emits count now hin hout hout' hsent hfin hdis =>
    rw [sends_of_eq hout, sends_of_eq hout, List.flatMap_nil, List.flatMap_nil, List.append_nil, List.append_nil] at h
    rw [sends_update hout', sends_update hout', if_pos rfl, if_pos rfl, hsent, hdis, ← h]
    unfold inboxNames
    rw [hin]; rfl
  | discards t p rest hh ht hin hin' hout hsent hfin hdis =>
    obtain ⟨rfl, de, rfl⟩ := handles_eq_none ht (hflow.accepted t p (by rw [hin]; exact List.mem_cons_self ..)) hh
    rw [inboxNames_of_eq hin] at h
    rw [inboxNames_update hin', if_pos rfl, hsent, hdis, List.flatMap_append]
    unfold sends at h ⊢
    rw [hout, ← h, List.flatMap_cons]
    simp only [List.append_assoc]
    rfl
  | handled t p rest l hh hin hin' hout hout' hsent hfin hdis =>
    have ht : t ≠ .observerIncoming := by
      rintro rfl
      cases hh
    rw [sends_update hout', sends_update hout', if_neg ht.symm, if_neg ht.symm, inboxNames_update hin', hsent, hdis,
      ← h]
    refine congrArg (_ ++ · ++ _) ?_
    split
    · rename_i htp
      subst htp
      rw [inboxNames_of_eq hin]
      cases p with
      | appEvent ae => rfl
      | _ => cases hh
    · rfl
  | pushes t r p rest hout hout' hin' hsent hfin hdis =>
    have hp : MadeBy t (r, p) := hmade.1 t (r, p) (by rw [hout]; exact List.mem_cons_self ..)
    rw [sends_update hout', sends_update hout', inboxNames_update hin', hsent, hdis]
    rcases madeBy_cases hp with ⟨rfl, rfl, fe, rfl⟩ | ⟨rfl, rfl, de, rfl⟩ | ⟨rfl, rfl, me, rfl⟩ |
      ⟨ht, hr, hr', hmir, hdir⟩
    · rw [sends_of_eq hout, sends_of_eq hout] at h
      rw [if_neg nofun, if_pos rfl, if_pos rfl, if_pos rfl, List.map_append]
      exact h.trans (List.append_assoc ..).symm
    · rw [sends_of_eq hout, sends_of_eq hout] at h
      rw [if_pos rfl, if_pos rfl, if_pos rfl, if_pos rfl, List.flatMap_append, ← inboxNames]
      simp only [List.append_assoc] at h ⊢
      refine h.trans ?_
      exact congrArg (· ++ _) (congrArg (List.map FileEvent.fileName) (List.append_nil _).symm)
    · rw [if_neg nofun, if_neg nofun, if_neg nofun, if_neg nofun]
      exact h
    · rw [if_neg ht.symm, if_neg ht.symm, if_neg ht, ← h]
      refine congrArg (_ ++ · ++ _) ?_
      split
      · rename_i hpr
        subst hpr
        rw [List.flatMap_append, ← inboxNames, List.flatMap_singleton, hdir, List.append_nil]
      · rfl

end Names

/-! ## The numbers of the events -/

/-- The FileEvents the observer has made and not sent yet. -/
def pending (s : Chain) : List FileEvent := (s.outbox .observerIncoming).flatMap (fun e => e.2.carried)

/-- The events the observer has made. -/
def events (s : Chain) : List FileEvent := s.sent ++ s.pending

/-- The step starts the observer's thread. -/
def startsObserver (s s' : Chain) : Bool :=
  !s.manager.running (taskId .observerIncoming) && s'.manager.running (taskId .observerIncoming)

/-- The FileEvents sent in each run of the observer's thread, those of the latest run first. -/
def noteRuns (runs : List (List FileEvent)) (s : Chain) (_ : ChainAct) (s' : Chain) : List (List FileEvent) :=
  if s.startsObserver s' then [] :: runs
  else
    match runs with
    | []            => []
    | run :: before => (run ++ s'.sent.drop s.sent.length) :: before

/-- **What a step does to the events**: nothing, or a new run begins, or the next one is made. -/
inductive Counts (s s' : Chain) : Prop
  | same (hno : s.startsObserver s' = false) (he : s'.events = s.events) (hc : s'.count = s.count)
  | starts (hstart : s.startsObserver s' = true) (hpc : s.pc .observerIncoming = .exited) (hsent : s'.sent = s.sent)
      (he : s'.events = s.events) (hc : s'.count = 0)
  | makes (now : TimePoint) (hno : s.startsObserver s' = false) (hpc : s.pc .observerIncoming = .emit)
      (he : s'.events = s.events ++ [fileEvent (s.count + 1) now]) (hc : s'.count = s.count + 1)

section Numbers

variable {s s' : Chain} {t : ChainTask}

theorem events_at {c : ChainPc} (hpc : s.pc .observerIncoming = c) :
    s.events = s.sent ++ (outgoing c).flatMap (fun e => e.2.carried) := by
  unfold events pending outbox
  rw [hpc]

theorem events_goto {c : ChainPc} (hpc : s'.pc = Function.update s.pc .observerIncoming c) :
    s'.events = s'.sent ++ (outgoing c).flatMap (fun e => e.2.carried) :=
  events_at (by rw [hpc, Function.update_self])

theorem events_of_pc {c : ChainPc} (hpc : s'.pc = Function.update s.pc t c) (hsent : s'.sent = s.sent)
    (hout : t = .observerIncoming → outgoing c = outgoing (s.pc t)) : s'.events = s.events := by
  unfold events pending outbox
  rw [hsent, hpc]
  by_cases ht : t = .observerIncoming
  · subst ht
    rw [Function.update_self, hout rfl]
  · rw [Function.update_of_ne (Ne.symm ht)]

/-- A manager that goes on with the threads it has starts none. -/
theorem startsObserver_of_running (h : s'.manager.running (taskId .observerIncoming) = true →
    s.manager.running (taskId .observerIncoming) = true) : s.startsObserver s' = false := by
  unfold startsObserver
  cases hr : s'.manager.running (taskId .observerIncoming) with
  | false => rw [Bool.and_false]
  | true => rw [h hr]; rfl

theorem startsObserver_of_same (h : s'.manager = s.manager) : s.startsObserver s' = false :=
  startsObserver_of_running (by rw [h]; exact id)

theorem running_of_finish {m m' : ThreadManager} {u v : TaskId} (h : m.step (.finish u) = some m')
    (hr : m'.running v = true) : m.running v = true := by
  simp only [ThreadManager.step] at h
  split at h
  · rename_i hu
    cases h
    by_cases hv : v = u
    · rw [hv]
      exact hu
    · rwa [ThreadManager.running, ThreadManager.run_setRun_of_ne _ hv] at hr
  · cases h

theorem counts_go {now : TimePoint} (hl : LinkInv s) (hst : s.goStep t now = some s') : Counts s s' := by
  have hmove : ∀ {u : Chain} {c : ChainPc}, u.pc = Function.update s.pc t c → u.manager = s.manager →
      u.sent = s.sent → u.count = s.count → (t = .observerIncoming → outgoing c = outgoing (s.pc t)) → Counts s u :=
    fun hpc hm hsent hc hout => .same (startsObserver_of_same hm) (events_of_pc hpc hsent hout) hc
  unfold goStep at hst
  split at hst
  · rename_i hpc
    split at hst
    · obtain ⟨m, hm, rfl⟩ := Option.map_eq_some_iff.1 hst
      refine .same (startsObserver_of_running (fun hr => ?_)) ?_ rfl
      · exact running_of_finish hm hr
      · have hout : t = .observerIncoming → outgoing .exited = outgoing (s.pc t) := fun _ => by rw [hpc]; rfl
        exact events_of_pc rfl rfl hout
    · unfold waitStep at hst
      split at hst
      · obtain ⟨p, -, rfl⟩ := Option.map_eq_some_iff.1 hst
        exact hmove (c := .waitCommand) rfl rfl rfl rfl (fun _ => by rw [hpc]; rfl)
      · obtain ⟨u, hu, rfl⟩ := Option.map_eq_some_iff.1 hst
        obtain ⟨q, -, rfl⟩ := queueStep_eq hu
        exact hmove (c := .waiting) rfl rfl rfl rfl (fun _ => by rw [hpc]; rfl)
  · rename_i hpc
    split at hst
    · obtain ⟨u, hu, rfl⟩ := Option.map_eq_some_iff.1 hst
      obtain ⟨q, -, rfl⟩ := queueStep_eq hu
      exact hmove (c := .got _) rfl rfl rfl rfl (fun _ => by rw [hpc]; rfl)
    · cases hst
  · rename_i hpc
    cases hst
    exact hmove (c := .head) rfl rfl rfl rfl (fun _ => by rw [hpc]; rfl)
  · rename_i p hpc
    cases hst
    -- the observer takes no messages
    have hne : t ≠ .observerIncoming := by
      have hplace := hl.places t
      rw [hpc] at hplace
      simpa [placeOf] using hplace
    unfold handleStep
    split
    · exact hmove (c := .sending _) rfl rfl rfl rfl (fun he => absurd he hne)
    · exact hmove (c := .head) rfl rfl rfl rfl (fun he => absurd he hne)
  · rename_i hpc
    cases hst
    exact hmove (c := .head) rfl rfl rfl rfl (fun _ => by rw [hpc]; rfl)
  · rename_i r p rest hpc
    obtain ⟨u, hu, rfl⟩ := Option.map_eq_some_iff.1 hst
    obtain ⟨q, -, rfl⟩ := queueStep_eq hu
    by_cases ht : t = .observerIncoming
    · subst ht
      refine .same (startsObserver_of_same rfl) ?_ rfl
      rw [events_at hpc, events_goto (s := s) (c := .notifying r rest) rfl, if_pos rfl]
      exact List.append_assoc ..
    · exact hmove (c := .notifying r rest) rfl rfl (if_neg ht) rfl (fun he => absurd he ht)
  · rename_i hpc
    split at hst
    · obtain ⟨p, -, rfl⟩ := Option.map_eq_some_iff.1 hst
      exact hmove (c := .commanded _) rfl rfl rfl rfl (fun _ => by rw [hpc]; rfl)
    · cases hst
  · rename_i cmd hpc
    cases hst
    exact hmove (c := .autoExit) rfl rfl rfl rfl (fun _ => by rw [hpc]; rfl)
  · rename_i hpc
    cases hst
    exact hmove (c := .autoExit) rfl rfl rfl rfl (fun _ => by rw [hpc]; rfl)
  · rename_i hpc
    cases hst
    exact hmove (c := .pauseCheck) rfl rfl rfl rfl (fun _ => by rw [hpc]; rfl)
  · rename_i hpc
    cases hst
    refine hmove rfl rfl rfl rfl (fun _ => ?_)
    rw [hpc]
    split <;> rfl
  · rename_i hpc
    cases hst
    obtain rfl := hl.eq_observer hpc rfl
    refine .makes now (startsObserver_of_same rfl) hpc ?_ rfl
    rw [events_at hpc, events_goto (s := s) (c := .sending _) rfl]
    exact congrArg (· ++ _) (List.append_nil _).symm
  · cases hst

theorem counts_of_step {a : ChainAct} (hl : LinkInv s) (hst : s.step a = some s') : Counts s s' := by
  rcases step_cases hst with ⟨b, m, -, -, rfl⟩ | ⟨b, p, -, rfl⟩ | ⟨t, now, hgo⟩ |
    ⟨t, target, r, rest, q, hpc, -, rfl⟩ | ⟨t, q, -, -, rfl⟩ | ⟨t, timedOut, q, -, -, rfl⟩
  · by_cases hstart : (!s.manager.running (taskId .observerIncoming) && m.running (taskId .observerIncoming)) = true
    · have hexited : s.pc .observerIncoming = .exited := by
        simp only [Bool.and_eq_true, Bool.not_eq_true'] at hstart
        exact hl.exited _ hstart.1
      refine .starts hstart hexited rfl ?_ (if_pos hstart)
      rw [events_at hexited, events_at (s := s.withManager m) (c := .head) (if_pos hstart)]; rfl
    · refine .same (Bool.eq_false_of_not_eq_true hstart) ?_ (if_neg hstart)
      exact (events_at (s := s.withManager m) (if_neg hstart)).trans (events_at (s := s) rfl).symm
  · exact .same (startsObserver_of_same rfl) rfl rfl
  · exact counts_go hl hgo
  · exact .same (startsObserver_of_same rfl)
      (events_of_pc (t := t) (c := .sending rest) rfl rfl (fun _ => by rw [hpc]; rfl)) rfl
  · exact .same (startsObserver_of_same rfl) rfl rfl
  · exact .same (startsObserver_of_same rfl) rfl rfl

/-- **Nothing that the observer has sent is taken back.** -/
theorem sent_prefix (hm : Moves s s') : s.sent <+: s'.sent := by
  cases hm with
  | quiet _ _ hsent => rw [hsent]
  | handled _ _ _ _ _ _ _ _ _ hsent => rw [hsent]
  | discards _ _ _ _ _ _ _ _ hsent => rw [hsent]
  | emits _ _ _ _ _ hsent => rw [hsent]
  | pushes t r p rest _ _ _ hsent =>
    rw [hsent]
    split
    · exact List.prefix_append ..
    · exact List.prefix_rfl

/-- **The events numbered 1, 2, 3 and so on.** -/
def Numbered (l : List FileEvent) : Prop := ∀ i fe, l[i]? = some fe → ∃ now, fe = fileEvent (.ofNat (i + 1)) now

theorem Numbered.append {l : List FileEvent} (h : Numbered l) (now : TimePoint) :
    Numbered (l ++ [fileEvent (.ofNat (l.length + 1)) now]) := by
  intro i fe hi
  rw [List.getElem?_append] at hi
  split at hi
  · exact h i fe hi
  · rename_i hle
    rw [List.getElem?_singleton] at hi
    split at hi
    · rename_i hi0
      obtain rfl : i = l.length := by omega
      cases hi
      exact ⟨now, rfl⟩
    · cases hi

theorem Numbered.of_append {l l' : List FileEvent} (h : Numbered (l ++ l')) : Numbered l := by
  intro i fe hi
  have hlt : i < l.length := (List.getElem?_eq_some_iff.1 hi).1
  exact h i fe ((List.getElem?_append_left hlt).trans hi)

theorem pending_of_exited (h : s.pc .observerIncoming = .exited) : s.pending = [] := by
  unfold pending outbox
  rw [h]; rfl

/-- The runs make up what has been sent, each is numbered from 1, and the last one counts on. -/
structure RunsInv (s : Chain) (runs : List (List FileEvent)) : Prop where
  sent    : s.sent = runs.reverse.flatten
  never   : runs = [] → s.manager.running (taskId .observerIncoming) = false
  ended   : ∀ run ∈ runs.tail, Numbered run
  current : ∀ run ∈ runs.head?, Numbered (run ++ s.pending) ∧ s.count = .ofNat (run ++ s.pending).length

theorem RunsInv.numbered {runs : List (List FileEvent)} (h : RunsInv s runs) : ∀ run ∈ runs, Numbered run := by
  intro run hrun
  cases runs with
  | nil => cases hrun
  | cons last before =>
    rcases List.mem_cons.1 hrun with rfl | hrun
    · exact (h.current run rfl).1.of_append
    · exact h.ended run hrun

theorem RunsInv.step {runs : List (List FileEvent)} {a : ChainAct} (h : RunsInv s runs) (hl : LinkInv s)
    (hst : s.step a = some s') : RunsInv s' (noteRuns runs s a s') := by
  obtain ⟨new, hnew⟩ := sent_prefix (moves_of_step hl hst)
  have hdrop : s'.sent.drop s.sent.length = new := by rw [← hnew, List.drop_left]
  -- what is sent in the step was to be sent before it, or has been made in it
  have hcancel : ∀ {l : List FileEvent}, s'.events = s.events ++ l → new ++ s'.pending = s.pending ++ l := by
    intro l he
    have he : s'.sent ++ s'.pending = s.sent ++ s.pending ++ l := he
    rw [← hnew, List.append_assoc, List.append_assoc] at he
    exact List.append_cancel_left he
  have hstays : s.startsObserver s' = false → ∀ l, s'.events = s.events ++ l →
      (∀ run ∈ runs.head?, Numbered (run ++ s.pending ++ l) ∧ s'.count = .ofNat (run ++ s.pending ++ l).length) →
      (runs = [] → l = []) → RunsInv s' (noteRuns runs s a s') := by
    intro hno l he hcur hnil
    unfold noteRuns
    rw [if_neg (by rw [hno]; exact Bool.false_ne_true), hdrop]
    cases runs with
    | nil =>
      have hrun := h.never rfl
      have hrun' : s'.manager.running (taskId .observerIncoming) = false := by
        simpa [startsObserver, hrun] using hno
      have hnone := hcancel he
      rw [pending_of_exited (hl.exited _ hrun), hnil rfl, List.append_nil] at hnone
      obtain ⟨rfl, -⟩ := List.append_eq_nil_iff.1 hnone
      refine ⟨?_, fun _ => hrun', h.ended, fun run hrun => by cases hrun⟩
      rw [← hnew, h.sent]; rfl
    | cons run before =>
      have hcur := hcur run rfl
      rw [List.append_assoc, ← hcancel he, ← List.append_assoc] at hcur
      refine ⟨?_, nofun, h.ended, fun r hr => ?_⟩
      · rw [← hnew, h.sent, List.reverse_cons, List.reverse_cons, List.flatten_append, List.flatten_append,
          List.flatten_singleton, List.flatten_singleton, List.append_assoc]
      · obtain rfl : run ++ new = r := Option.some.inj hr
        exact hcur
  cases counts_of_step hl hst with
  | same hno he hc =>
    refine hstays hno [] (by rw [he, List.append_nil]) (fun run hrun => ?_) (fun _ => rfl)
    rw [List.append_nil, hc]
    exact h.current run hrun
  | makes now hno hpc he hc =>
    refine hstays hno _ he (fun run hrun => ?_) (fun hnil => ?_)
    · obtain ⟨hnum, hcount⟩ := h.current run hrun
      have hnext : s.count + 1 = .ofNat ((run ++ s.pending).length + 1) := by
        rw [hcount, Int32.ofNat_add]; rfl
      rw [hc, hnext]
      refine ⟨hnum.append now, ?_⟩
      simp only [List.length_append, List.length_singleton]
    · have hexited := hl.exited _ (h.never hnil)
      rw [hpc] at hexited
      cases hexited
  | starts hstart hpc hsent he hc =>
    unfold noteRuns
    rw [if_pos hstart]
    have hnone : s'.pending = [] := by
      have hnone := hcancel (l := []) (by rw [he, List.append_nil])
      rw [pending_of_exited hpc] at hnone
      exact (List.append_eq_nil_iff.1 hnone).2
    -- the run before has ended, and nothing of it is to be sent
    refine ⟨?_, nofun, h.numbered, fun run hrun => ?_⟩
    · rw [hsent, h.sent, List.reverse_cons, List.flatten_append]
      exact (List.append_nil _).symm
    · obtain rfl : [] = run := Option.some.inj hrun
      rw [hnone, hc]
      exact ⟨nofun, rfl⟩

theorem reachable_runsInv {runs : List (List FileEvent)} (hs : (machine.withHistory [] noteRuns).Reachable (s, runs)) :
    RunsInv s runs :=
  hs.history_invariant (J := LinkInv) (I := RunsInv) (fun _ hr => (reachable_flowInv hr).1)
    ⟨rfl, fun _ => rfl, fun _ hrun => (by cases hrun), fun _ hrun => (by cases hrun)⟩
    (fun _ _ _ _ hl hI hst => hI.step hl hst)

end Numbers

/-- **The events are numbered from 1 in each run of the observer's thread**, none left out and none made twice, as far
as an `int` counts; all that has been sent is what its runs have sent, one after the other, the last one's count is that
of its own events, and the results are done in this order. -/
theorem events_numbered {s : Chain} {runs : List (List FileEvent)}
    (hs : (machine.withHistory [] noteRuns).Reachable (s, runs)) :
    s.finished <+: s.sent ∧ s.sent = runs.reverse.flatten ∧
    (∀ run ∈ runs, ∀ i fe, i + 1 < 2 ^ 31 → run[i]? = some fe →
      fe.fileName = "file_" ++ toString (i + 1) ++ ".txt" ∧ fe.fileSize.toNat = 1024 * (i + 1)) ∧
    ∀ run ∈ runs.head?, s.count = .ofNat (run.length + s.pending.length) := by
  have h := reachable_runsInv hs
  refine ⟨?_, h.sent, fun run hrun i fe hi hfe => ?_, fun run hrun => ?_⟩
  · rw [← (reachable_flowInv hs.fst).2.located]
    unfold located
    simp only [List.append_assoc]
    exact List.prefix_append ..
  · obtain ⟨now, rfl⟩ := h.numbered run hrun i fe hfe
    rw [fileEvent_eq hi]
    refine ⟨rfl, ?_⟩
    rw [BitVec.toNat_ofNat]
    omega
  · rw [(h.current run hrun).2, List.length_append]

/-- An event in each of two runs: both are the first. -/
theorem events_numbered_restarted : ∃ (s : Chain) (runs : List (List FileEvent)), runs.length = 2 ∧
    s.sent = runs.reverse.flatten ∧ s.count = 1 ∧
    ∀ run ∈ runs, ∀ fe, run[0]? = some fe → fe.fileName = "file_1.txt" ∧ fe.fileSize.toNat = 1024 := by
  obtain ⟨p, hrun⟩ : ∃ p, (machine.withHistory [] noteRuns).runFrom (machine.withHistory [] noteRuns).init (oneEvent ++
      [.manager .stopAllThreads, .go .observerIncoming 0, .go .appObserver 0, .go .processing 0, .go .processing 0,
       .go .transformation 0, .go .transformation 0, .go .result 0,
       .manager .join, .manager .join, .manager .join, .manager .join, .manager .join, .manager .done,
       .manager .restartAllThreads, .manager (.start true), .manager (.start true), .manager (.start true),
       .manager (.start true), .manager (.start true), .manager .done,
       -- the observer's wait for a command times out again
       .go .observerIncoming 0, .command .lock, .command (.waiter .consumer), .command (.waiter (.consumerLoads 0)),
       .command .checked, .command .block, .command .wake, .command (.relock true), .command (.waiter .consumer),
       .command (.waiter (.consumerLoads 0)), .command .checked,
       .go .observerIncoming 11, .go .observerIncoming 12, .go .observerIncoming 13, .go .observerIncoming 14,
       .go .observerIncoming 17, .go .observerIncoming 18]) = some p := ⟨_, rfl⟩
  have htwo : p.2.length = 2 := by cases hrun; rfl
  have hlast : p.2.head?.map List.length = some 1 ∧ p.1.pending = [] := by cases hrun; exact ⟨rfl, rfl⟩
  obtain ⟨-, hsent, hnum, hcount⟩ := events_numbered (Machine.reachable_of_run _ hrun)
  obtain ⟨run, hhead, hlen⟩ := Option.map_eq_some_iff.1 hlast.1
  have hone := hcount run hhead
  rw [hlen, hlast.2] at hone
  exact ⟨p.1, p.2, htwo, hsent, hone, fun run hrun fe hfe => hnum run hrun 0 fe (by decide) hfe⟩

/-- The observer waits for no message, and so holds none. -/
theorem inbox_observer {s : Chain} (hl : LinkInv s) :
    s.inbox .observerIncoming = (s.queue .observerIncoming).contents := by
  have hplace := hl.places .observerIncoming
  unfold inbox
  cases hpc : s.pc .observerIncoming with
  | waiting => rw [hpc] at hplace; cases hplace
  | got msg => rw [hpc] at hplace; cases hplace
  | _ => rfl

theorem length_flatMap_of_one {α β : Type} {f : α → List β} {l : List α} (h : ∀ x ∈ l, (f x).length = 1) :
    (l.flatMap f).length = l.length := by
  rw [List.length_flatMap, List.map_congr_left h, List.map_const', List.sum_replicate_nat,
    Nat.mul_one]

/-- **No message leaves the observer's queue.** -/
theorem observerQueue_prefix {s s' : Chain} {a : ChainAct} (hl : LinkInv s) (hst : s.step a = some s') :
    (s.queue .observerIncoming).contents <+: (s'.queue .observerIncoming).contents := by
  rw [← inbox_observer hl, ← inbox_observer (linkInv_step hl hst)]
  cases moves_of_step hl hst with
  | quiet hin => rw [hin]
  | emits _ _ hin => rw [hin]
  | handled t p rest sends hh _ hin' =>
    have ht : ChainTask.observerIncoming ≠ t := by
      rintro rfl
      cases hh
    rw [hin', Function.update_of_ne ht]
  | discards t p rest _ ht _ hin' => rw [hin', Function.update_of_ne ht.symm]
  | pushes t r p rest _ _ hin' =>
    rw [hin']
    by_cases hr : ChainTask.observerIncoming = r
    · rw [← hr, Function.update_self]
      exact List.prefix_append ..
    · rw [Function.update_of_ne hr]

/-- **The observer's queue keeps a MirrorEvent for every event**: with those still to be sent and to be made, they are
the names of all events ever sent, in order; so it holds as many as the application observer has taken, and no step
takes one from it. -/
theorem mirrors_kept {s : Chain} (hs : machine.Reachable s) :
    (s.queue .observerIncoming).contents.flatMap mirrorNames ++ sends mirrorNames s .appObserver ++
      inboxNames fileNames s .appObserver = s.sent.map FileEvent.fileName ∧
    (s.queue .observerIncoming).contents.length + (sends mirrorNames s .appObserver).length +
      (s.inbox .appObserver).length = s.sent.length ∧
    ∀ a s', s.step a = some s' →
      (s.queue .observerIncoming).contents <+: (s'.queue .observerIncoming).contents := by
  have hall : s.mirrors = s.sent.map FileEvent.fileName := by
    refine hs.invariant_of (I := fun s => s.mirrors = s.sent.map FileEvent.fileName)
      (J := fun s => LinkInv s ∧ Holds MadeBy (fun r p => ∃ u, MadeBy u (r, p)) s)
      (fun s hr => ⟨(reachable_flowInv hr).1, keeps_madeBy.reachable hr⟩) rfl
      (fun s _ s' hJ hI hst => mirrors_moves hJ.2 hI (moves_of_step hJ.1 hst))
  obtain ⟨hl, hflow⟩ := reachable_flowInv hs
  unfold mirrors inboxNames at hall
  rw [inbox_observer hl] at hall
  refine ⟨hall, ?_, fun _ _ hst => observerQueue_prefix hl hst⟩
  -- a message there is a MirrorEvent, and a FileEvent here
  have hmirror : ∀ p ∈ (s.queue .observerIncoming).contents, (mirrorNames p).length = 1 := by
    intro p hp
    have hacc := hflow.accepted .observerIncoming p (by rw [inbox_observer hl]; exact hp)
    cases p <;> first | rfl | cases hacc
  have hfile : ∀ p ∈ s.inbox .appObserver, (fileNames p).length = 1 := by
    intro p hp
    have hacc := hflow.accepted .appObserver p hp
    cases p <;> first | rfl | cases hacc
  have hlen := congrArg List.length hall
  rw [List.length_append, List.length_append, length_flatMap_of_one hmirror, length_flatMap_of_one hfile,
    List.length_map] at hlen
  exact hlen

theorem mirrors_kept_oneEvent : ∃ s : Chain, s.sent.length = 1 ∧
    (s.queue .observerIncoming).contents.flatMap mirrorNames = s.sent.map FileEvent.fileName := by
  obtain ⟨s, hrun⟩ : ∃ s, machine.runFrom machine.init oneEvent = some s := ⟨_, rfl⟩
  have hsent : s.sent.length = 1 := by cases hrun; rfl
  have hnone : sends mirrorNames s .appObserver = [] ∧ inboxNames fileNames s .appObserver = [] := by
    cases hrun; exact ⟨rfl, rfl⟩
  obtain ⟨hnames, -⟩ := mirrors_kept (Machine.reachable_of_run _ hrun)
  rw [hnone.1, hnone.2, List.append_nil, List.append_nil] at hnames
  exact ⟨s, hsent, hnames⟩

/-- **The processing task throws away a DirectEvent for each event**: thrown away, in its queue or still to be sent,
they are for the events sent, in order, and the one whose FileEvent is to be sent first. -/
theorem directs_discarded {s : Chain} (hs : machine.Reachable s) :
    s.discarded.flatMap (fun d => directNames d.2) ++ inboxNames directNames s .processing ++
      sends directNames s .observerIncoming =
        s.sent.map FileEvent.fileName ++ sends fileNames s .observerIncoming ∧
    (s.outbox .observerIncoming = [] →
      s.discarded.length + (inboxNames directNames s .processing).length = s.sent.length) := by
  have hall : s.directs = s.sent.map FileEvent.fileName ++ sends fileNames s .observerIncoming := by
    refine hs.invariant_of
      (I := fun s => s.directs = s.sent.map FileEvent.fileName ++ sends fileNames s .observerIncoming)
      (J := fun s => (LinkInv s ∧ FlowInv s) ∧ Holds MadeBy (fun r p => ∃ u, MadeBy u (r, p)) s)
      (fun s hr => ⟨reachable_flowInv hr, keeps_madeBy.reachable hr⟩) rfl
      (fun s _ s' hJ hI hst => directs_moves hJ.1.2 hJ.2 hI (moves_of_step hJ.1.1 hst))
  refine ⟨hall, fun hout => ?_⟩
  unfold directs at hall
  rw [sends_of_eq hout, sends_of_eq hout, List.flatMap_nil, List.flatMap_nil, List.append_nil, List.append_nil] at hall
  have hdirect : ∀ d ∈ s.discarded, (directNames d.2).length = 1 := by
    intro d hd
    obtain ⟨-, de, hde⟩ := (reachable_flowInv hs).2.discarded d hd
    rw [hde]; rfl
  have hlen := congrArg List.length hall
  rw [List.length_append, length_flatMap_of_one hdirect, List.length_map] at hlen
  exact hlen

theorem directs_discarded_oneEvent : ∃ s : Chain, s.sent.length = 1 ∧
    s.discarded.length + (inboxNames directNames s .processing).length = s.sent.length := by
  obtain ⟨s, hrun⟩ : ∃ s, machine.runFrom machine.init oneEvent = some s := ⟨_, rfl⟩
  have hsent : s.sent.length = 1 := by cases hrun; rfl
  have hout : s.outbox .observerIncoming = [] := by cases hrun; rfl
  obtain ⟨-, hlen⟩ := directs_discarded (Machine.reachable_of_run _ hrun)
  exact ⟨s, hsent, hlen hout⟩

end Chain
end ThreadMessaging

import ThreadMessaging.SpScStable
/-!
# From `sendCommand` to `wait_pop_for`

What the callers of the command path see: the commands whose `sendCommand` has returned true, and those that a
`wait_pop_for` has returned with (`CommandLog`).  The ring's `published` are the former, with the command of a call that
has made its push and not returned; its `delivered` are the latter, with the one a call has popped and not returned with
(`handover_step`).  So the ring's FIFO law is one about the callers (`reachable_handover`).
-/
namespace ThreadMessaging

structure CommandLog (T : Type) where
  /-- The command of the last call of `sendCommand`. -/
  sending  : Option T := none
  /-- The commands that `sendCommand` has returned true for. -/
  accepted : List T := []
  /-- The commands that `wait_pop_for` has returned with. -/
  taken    : List T := []
  deriving DecidableEq, Repr

namespace CommandPath

variable {T : Type}

def noteCommand (l : CommandLog T) (s : CommandPath T) : CommandAct T → CommandLog T
  | .sendCommand cmd => { l with sending := some cmd }
  | .sent =>
    match s.sender with
    | .ret true => { l with accepted := l.accepted ++ l.sending.toList }
    | _         => l
  | .unlock =>
    match s.waiter with
    | .ret out => { l with taken := l.taken ++ out.toList }
    | _        => l
  | _ => l

/-- The value of a push that has not stored `m_head` yet. -/
def pushing : ProducerPc T → Option T
  | .pushLoadHead value   => some value
  | .pushLoadTail value _ => some value
  | .pushWrite value _ _  => some value
  | .pushStore value _ _  => some value
  | _                     => none

/-- The call of `sendCommand` in progress has made its push. -/
def hasPushed (s : CommandPath T) : Bool :=
  match s.sender, s.ring.producer with
  | .push, .pushReturn ok => ok
  | .notify, _            => true
  | .ret ok, _            => ok
  | _, _                  => false

/-- The command of a call that has made its push and not returned. -/
def underway (s : CommandPath T) (l : CommandLog T) : List T := if s.hasPushed then l.sending.toList else []

/-- The command that `wait_pop_for` has popped and not returned with. -/
def popped (s : CommandPath T) : List T :=
  match s.waiter, s.ring.consumer with
  | .ret out, _           => out.toList
  | .pop, .popReturn out  => out.toList
  | _, _                  => []

def checking : WaiterPc T → Bool
  | .check _ => true
  | _        => false

def emptying : ConsumerPc T → Bool
  | .emptyLoadTail   => true
  | .emptyLoadHead _ => true
  | .emptyReturn _   => true
  | _                => false

/-- **The ring between its callers.** -/
structure Handover (s : CommandPath T) (l : CommandLog T) : Prop where
  published : s.ring.published = l.accepted ++ s.underway l
  delivered : s.ring.delivered = l.taken ++ s.popped
  pushes    : s.sender = .push → ∀ v, pushing s.ring.producer = some v → l.sending = some v
  checks    : checking s.waiter = true → emptying s.ring.consumer = true

/-! ## What the steps inside the ring buffer's calls do -/

/-- A step inside `push` publishes its value, or nothing. -/
theorem pushStep_publishes {r r' : Spsc T} {a : SpscAct T} (h : pushStep r a = some r') :
    r'.delivered = r.delivered ∧ r'.consumer = r.consumer ∧
    ((r'.published = r.published ∧ (∀ v, pushing r'.producer = some v → pushing r.producer = some v) ∧
      r'.producer ≠ .pushReturn true ∧ r.producer ≠ .pushReturn true) ∨
    ∃ v, pushing r.producer = some v ∧ r'.published = r.published ++ [v] ∧ r'.producer = .pushReturn true) := by
  cases a with
  | producer =>
    simp only [pushStep] at h
    split at h
    · cases h
    · rename_i hnr
      simp only [Spsc.step, Spsc.producerStep] at h
      split at h
      · rename_i value hp
        cases h
        exact ⟨rfl, rfl, .inl ⟨rfl, fun v hv => by rw [hp]; exact hv, (fun he => by cases he),
          fun he => by rw [hp] at he; cases he⟩⟩
      · rename_i value head next hp
        cases h
        exact ⟨rfl, rfl, .inl ⟨rfl, fun v hv => by rw [hp]; exact hv, (fun he => by cases he),
          fun he => by rw [hp] at he; cases he⟩⟩
      · rename_i value head next hp
        cases h
        exact ⟨rfl, rfl, .inr ⟨value, by rw [hp]; rfl, rfl, rfl⟩⟩
      · rename_i hp
        cases h
        exact ⟨rfl, rfl, .inl ⟨rfl, (fun v hv => by cases hv), (fun he => by cases he),
          fun he => by rw [hp] at he; cases he⟩⟩
      · rename_i hp
        exact absurd hp (hnr _)
      · rename_i hp
        cases h
        exact ⟨rfl, rfl, .inl ⟨rfl, (fun v hv => by cases hv), (fun he => by cases he),
          fun he => by rw [hp] at he; cases he⟩⟩
      · cases h
  | producerLoads j =>
    simp only [pushStep, Spsc.step] at h
    split at h
    · split at h
      · unfold Spsc.producerLoad at h
        split at h
        · rename_i value head hp
          dsimp only at h
          split at h
          · cases h
            exact ⟨rfl, rfl, .inl ⟨rfl, (fun v hv => by cases hv), (fun he => by cases he),
              fun he => by rw [hp] at he; cases he⟩⟩
          · cases h
            exact ⟨rfl, rfl, .inl ⟨rfl, fun v hv => by rw [hp]; exact hv, (fun he => by cases he),
              fun he => by rw [hp] at he; cases he⟩⟩
        · rename_i hp
          cases h
          exact ⟨rfl, rfl, .inl ⟨rfl, (fun v hv => by cases hv), (fun he => by cases he),
            fun he => by rw [hp] at he; cases he⟩⟩
        · cases h
      · cases h
    · cases h
  | _ => cases h

/-- A step inside `empty` or `pop` delivers the value it returns, or nothing. -/
theorem popStep_delivers {r r' : Spsc T} {a : SpscAct T} (h : popStep r a = some r') :
    r'.published = r.published ∧ r'.producer = r.producer ∧ (∀ out, r.consumer ≠ .popReturn out) ∧
    ((r'.delivered = r.delivered ∧ (∀ v, r'.consumer ≠ .popReturn (some v)) ∧
      (emptying r.consumer = true → emptying r'.consumer = true)) ∨
    ∃ v, emptying r.consumer = false ∧ r'.delivered = r.delivered ++ [v] ∧ r'.consumer = .popReturn (some v)) := by
  cases a with
  | consumer =>
    simp only [popStep] at h
    split at h
    · cases h
    · cases h
    · rename_i hnp hne
      simp only [Spsc.step, Spsc.consumerStep] at h
      split at h
      · rename_i hc
        cases h
        exact ⟨rfl, rfl, hnp, .inl ⟨rfl, (fun v he => by cases he), fun he => by rw [hc] at he; cases he⟩⟩
      · rename_i tail out hc
        cases h
        exact ⟨rfl, rfl, hnp, .inr ⟨out, by rw [hc]; rfl, rfl, rfl⟩⟩
      · cases h
        exact ⟨rfl, rfl, hnp, .inl ⟨rfl, (fun v he => by cases he), fun _ => rfl⟩⟩
      · rename_i hc
        exact absurd hc (hnp _)
      · rename_i hc
        exact absurd hc (hne _)
      · cases h
  | consumerLoads j =>
    simp only [popStep, Spsc.step] at h
    split at h
    · split at h
      · unfold Spsc.consumerLoad at h
        split at h
        · rename_i tail hc
          have hnp : ∀ out, r.consumer ≠ .popReturn out := fun out he => by rw [hc] at he; cases he
          have hno : emptying r.consumer ≠ true := fun he => by rw [hc] at he; cases he
          split at h
          · cases h
            exact ⟨rfl, rfl, hnp, .inl ⟨rfl, (fun v he => by cases he), fun he => absurd he hno⟩⟩
          · cases h
            exact ⟨rfl, rfl, hnp, .inl ⟨rfl, (fun v he => by cases he), fun he => absurd he hno⟩⟩
        · rename_i tail hc
          cases h
          exact ⟨rfl, rfl, (fun out he => by rw [hc] at he; cases he),
            .inl ⟨rfl, (fun v he => by cases he), fun _ => rfl⟩⟩
        · cases h
      · cases h
    · cases h
  | consumerReads k =>
    simp only [popStep, Spsc.step] at h
    split at h
    · rename_i tail hc
      split at h
      · split at h
        · cases h
          exact ⟨rfl, rfl, (fun out he => by rw [hc] at he; cases he),
            .inl ⟨rfl, (fun v he => by cases he), fun he => by rw [hc] at he; cases he⟩⟩
        · cases h
      · cases h
    · cases h
  | _ => cases h

/-! ## The two sides -/

/-- The steps of `sendCommand`. -/
def bySender : CommandAct T → Bool
  | .sendCommand _ => true
  | .sender _      => true
  | .pushed        => true
  | .notifyOne     => true
  | .sent          => true
  | _              => false

/-- **A step of the sender's is silent on the consumer's side**, but that it may wake the consumer. -/
theorem sender_side {s t : CommandPath T} {a : CommandAct T} (ha : bySender a = true) (hst : s.step a = some t) :
    t.ring.consumer = s.ring.consumer ∧ t.waitMutex = s.waitMutex ∧
    (t.waiter = s.waiter ∨ (s.waiter = .blocked ∧ t.waiter = .woken)) := by
  cases a with
  | sendCommand cmd =>
    simp only [step] at hst
    split at hst
    · obtain ⟨r, hr, rfl⟩ := Option.map_eq_some_iff.1 hst
      simp only [Spsc.step] at hr
      split at hr
      · cases hr; exact ⟨rfl, rfl, .inl rfl⟩
      · cases hr
    · cases hst
  | sender b =>
    simp only [step] at hst
    split at hst
    · obtain ⟨r, hr, rfl⟩ := Option.map_eq_some_iff.1 hst
      exact ⟨(pushStep_frame hr).2.1, rfl, .inl rfl⟩
    · cases hst
  | pushed =>
    simp only [step] at hst
    split at hst
    · rename_i ok hs hp
      obtain ⟨r, hr, rfl⟩ := Option.map_eq_some_iff.1 hst
      simp only [Spsc.step, Spsc.producerStep, hp] at hr
      cases hr
      exact ⟨rfl, rfl, .inl rfl⟩
    · cases hst
  | notifyOne =>
    simp only [step] at hst
    split at hst
    · rename_i hs hw
      cases hst
      exact ⟨rfl, rfl, .inr ⟨hw, rfl⟩⟩
    · cases hst; exact ⟨rfl, rfl, .inl rfl⟩
    · cases hst
  | sent =>
    simp only [step] at hst
    split at hst
    · cases hst; exact ⟨rfl, rfl, .inl rfl⟩
    · cases hst
  | _ => cases ha

/-- A step of the consumer's leaves the sender where it is. -/
theorem consumer_side {s t : CommandPath T} {a : CommandAct T} (ha : bySender a = false) (hst : s.step a = some t) :
    t.sender = s.sender := by
  have hcall : ∀ {u : CommandPath T} {c : WaitCheck}, u.sender = s.sender → u.callEmpty c = some t →
      t.sender = s.sender := by
    intro u c hu hcall
    obtain ⟨r, -, rfl⟩ := callEmpty_eq hcall
    exact hu
  cases a with
  | waitPopFor =>
    simp only [step] at hst
    split at hst
    · cases hst; rfl
    · cases hst
  | unlock =>
    simp only [step] at hst
    split at hst
    · cases hst; rfl
    · cases hst
  | lock =>
    simp only [step] at hst
    split at hst
    · split at hst
      · cases hst; rfl
      · exact hcall (u := { s with waitMutex := true }) rfl hst
    · cases hst
  | waiter b =>
    simp only [step] at hst
    split at hst
    · obtain ⟨r, -, rfl⟩ := Option.map_eq_some_iff.1 hst
      rfl
    · obtain ⟨r, -, rfl⟩ := Option.map_eq_some_iff.1 hst
      rfl
    · cases hst
  | checked =>
    simp only [step] at hst
    split at hst
    · obtain ⟨r, -, hst⟩ := Option.bind_eq_some_iff.1 hst
      split at hst
      · cases hst; rfl
      · exact hcall (u := { s with ring := r }) rfl hst
      · cases hst; rfl
      · exact hcall (u := { s with ring := r }) rfl hst
      · cases hst; rfl
      · obtain ⟨r', -, rfl⟩ := Option.map_eq_some_iff.1 hst
        rfl
    · cases hst
  | block =>
    simp only [step] at hst
    split at hst
    · cases hst; rfl
    · cases hst
  | wake =>
    simp only [step] at hst
    split at hst
    · cases hst; rfl
    · cases hst
  | relock timedOut =>
    simp only [step] at hst
    split at hst
    · exact hcall (u := { s with waitMutex := true }) rfl hst
    · cases hst
  | popped =>
    simp only [step] at hst
    split at hst
    · obtain ⟨r, -, rfl⟩ := Option.map_eq_some_iff.1 hst
      rfl
    · cases hst
  | _ => cases ha

/-! ## The ring between its callers -/

section Step

variable {s t : CommandPath T} {l l' : CommandLog T}

/-- A step of the sender's thread. -/
theorem Handover.sends (h : Handover s l) (hw : t.waiter = s.waiter) (hc : t.ring.consumer = s.ring.consumer)
    (hd : t.ring.delivered = s.ring.delivered) (htaken : l'.taken = l.taken)
    (hp : t.ring.published = l'.accepted ++ t.underway l')
    (hpush : t.sender = .push → ∀ v, pushing t.ring.producer = some v → l'.sending = some v) : Handover t l' := by
  refine ⟨hp, ?_, hpush, ?_⟩
  · unfold popped
    rw [hd, htaken, hw, hc]
    exact h.delivered
  · rw [hw, hc]
    exact h.checks

/-- A step of the waiter's thread. -/
theorem Handover.waits (h : Handover s l) (hs : t.sender = s.sender) (hp : t.ring.producer = s.ring.producer)
    (hpub : t.ring.published = s.ring.published) (hl : l'.sending = l.sending ∧ l'.accepted = l.accepted)
    (hd : t.ring.delivered = l'.taken ++ t.popped)
    (hchecks : checking t.waiter = true → emptying t.ring.consumer = true) : Handover t l' := by
  refine ⟨?_, hd, ?_, hchecks⟩
  · unfold underway hasPushed
    rw [hpub, hl.2, hl.1, hs, hp]
    exact h.published
  · rw [hs, hp, hl.1]
    exact h.pushes

/-- A step of the waiter's thread that pops nothing, from a place where it has popped nothing. -/
theorem Handover.pops_none (h : Handover s l) (hs : t.sender = s.sender) (hp : t.ring.producer = s.ring.producer)
    (hpub : t.ring.published = s.ring.published) (hd : t.ring.delivered = s.ring.delivered) (hno : s.popped = [])
    (hno' : t.popped = []) (hchecks : checking t.waiter = true → emptying t.ring.consumer = true) : Handover t l := by
  refine h.waits hs hp hpub ⟨rfl, rfl⟩ ?_ hchecks
  rw [hd, h.delivered, hno, hno']

theorem handover_sendCommand (h : Handover s l) {cmd : T} (hst : s.step (.sendCommand cmd) = some t) :
    Handover t (noteCommand l s (.sendCommand cmd)) := by
  simp only [step] at hst
  split at hst
  · rename_i hs
    obtain ⟨r, hr, rfl⟩ := Option.map_eq_some_iff.1 hst
    have hpub := h.published
    unfold underway hasPushed at hpub
    rw [hs] at hpub
    simp only [Spsc.step] at hr
    split at hr
    · cases hr
      refine h.sends rfl rfl rfl rfl ?_ (fun _ v hv => ?_)
      · show s.ring.published = _
        rw [hpub]
        unfold underway hasPushed noteCommand
        cases s.ring.initialized <;> rfl
      · cases hi : s.ring.initialized with
        | true => rw [hi] at hv; exact hv
        | false => rw [hi] at hv; cases hv
    · cases hr
  · cases hst

theorem hasPushed_push (hs : s.sender = .push) : s.hasPushed = true ↔ s.ring.producer = .pushReturn true := by
  unfold hasPushed
  rw [hs]
  cases s.ring.producer <;> simp

theorem handover_sender (h : Handover s l) {a : SpscAct T} (hst : s.step (.sender a) = some t) : Handover t l := by
  simp only [step] at hst
  split at hst
  · rename_i hs
    obtain ⟨r, hr, rfl⟩ := Option.map_eq_some_iff.1 hst
    have hpub := h.published
    obtain ⟨hd, hc, ⟨hpub', hv, hnr', hnr⟩ | ⟨v, hv, hpub', hret⟩⟩ := pushStep_publishes hr
    · have hno : s.hasPushed = false := Bool.eq_false_iff.2 (fun he => hnr ((hasPushed_push hs).1 he))
      have hno' : ({ s with ring := r } : CommandPath T).hasPushed = false :=
        Bool.eq_false_iff.2 (fun he => hnr' ((hasPushed_push (s := { s with ring := r }) hs).1 he))
      refine h.sends rfl hc hd rfl ?_ (fun _ v hp => h.pushes hs v (hv v hp))
      unfold underway at hpub ⊢
      rw [hno] at hpub
      rw [hno']
      exact hpub'.trans hpub
    · have hno : s.hasPushed = false := by
        refine Bool.eq_false_iff.2 (fun he => ?_)
        rw [(hasPushed_push hs).1 he] at hv
        cases hv
      have hhas : ({ s with ring := r } : CommandPath T).hasPushed = true :=
        (hasPushed_push (s := { s with ring := r }) hs).2 hret
      refine h.sends rfl hc hd rfl ?_ (fun _ v hp => ?_)
      · unfold underway at hpub ⊢
        rw [hno] at hpub
        rw [hhas, h.pushes hs v hv]
        show r.published = l.accepted ++ [v]
        rw [hpub', hpub]
        show l.accepted ++ [] ++ [v] = _
        rw [List.append_nil]
      · rw [show ({ s with ring := r } : CommandPath T).ring.producer = .pushReturn true from hret] at hp
        cases hp
  · cases hst

theorem handover_pushed (h : Handover s l) (hst : s.step .pushed = some t) : Handover t l := by
  simp only [step] at hst
  split at hst
  · rename_i ok hs hp
    obtain ⟨r, hr, rfl⟩ := Option.map_eq_some_iff.1 hst
    have hpub := h.published
    simp only [Spsc.step, Spsc.producerStep, hp] at hr
    cases hr
    refine h.sends rfl rfl rfl rfl ?_ (fun he => by cases ok <;> cases he)
    show s.ring.published = _
    rw [hpub]
    unfold underway hasPushed
    rw [hs, hp]
    cases ok <;> rfl
  · cases hst

theorem handover_notifyOne (h : Handover s l) (hst : s.step .notifyOne = some t) : Handover t l := by
  have hpub := h.published
  simp only [step] at hst
  split at hst
  · rename_i hs hw
    cases hst
    refine ⟨?_, ?_, (fun he => by cases he), (fun he => by cases he)⟩
    · show s.ring.published = _
      rw [hpub]
      unfold underway hasPushed
      rw [hs]
    · show s.ring.delivered = _
      rw [h.delivered]
      unfold popped
      rw [hw]
  · rename_i hs _
    cases hst
    refine h.sends rfl rfl rfl rfl ?_ (fun he => by cases he)
    show s.ring.published = _
    rw [hpub]
    unfold underway hasPushed
    rw [hs]
  · cases hst

theorem handover_sent (h : Handover s l) (hst : s.step .sent = some t) : Handover t (noteCommand l s .sent) := by
  have hpub := h.published
  simp only [step] at hst
  split at hst
  · rename_i ok hs
    cases hst
    unfold underway hasPushed at hpub
    rw [hs] at hpub
    cases ok with
    | true =>
      simp only [noteCommand, hs]
      refine h.sends rfl rfl rfl rfl ?_ (fun he => by cases he)
      exact hpub.trans (List.append_nil _).symm
    | false =>
      simp only [noteCommand, hs]
      exact h.sends rfl rfl rfl rfl hpub (fun he => by cases he)
  · cases hst

/-- The call of `empty`, from a place where nothing has been popped. -/
theorem handover_callEmpty (h : Handover s l) {u : CommandPath T} {c : WaitCheck} (hs : u.sender = s.sender)
    (hr : u.ring = s.ring) (hno : s.popped = []) (hst : u.callEmpty c = some t) : Handover t l := by
  obtain ⟨r, hcall, rfl⟩ := callEmpty_eq hst
  rw [hr] at hcall
  simp only [Spsc.step] at hcall
  split at hcall
  · cases hcall
    refine h.pops_none hs rfl rfl rfl hno rfl (fun _ => ?_)
    show emptying (if _ then _ else _) = true
    split <;> rfl
  · cases hcall

/-- Where nothing has been popped. -/
def holdsNone : WaiterPc T → Bool
  | .pop   => false
  | .ret _ => false
  | _      => true

theorem popped_eq_nil {p : WaiterPc T} (hw : s.waiter = p) (hp : holdsNone p = true) : s.popped = [] := by
  unfold popped
  rw [hw]
  split
  · cases hp
  · cases hp
  · rfl

/-- The thread goes on to another such place. -/
theorem Handover.goes (h : Handover s l) {p : WaiterPc T} (hw : s.waiter = p) (hp : holdsNone p = true)
    (hw' : holdsNone t.waiter = true) (hs : t.sender = s.sender) (hr : t.ring = s.ring)
    (hchecks : checking t.waiter = false) : Handover t l :=
  h.pops_none hs (by rw [hr]) (by rw [hr]) (by rw [hr]) (popped_eq_nil hw hp) (popped_eq_nil rfl hw')
    (fun hc => by rw [hc] at hchecks; cases hchecks)

theorem handover_waiter (h : Handover s l) {a : SpscAct T} (hst : s.step (.waiter a) = some t) : Handover t l := by
  simp only [step] at hst
  split at hst
  · rename_i c hw
    obtain ⟨r, hr, rfl⟩ := Option.map_eq_some_iff.1 hst
    obtain ⟨hpub, hp, -, ⟨hd, -, hempty⟩ | ⟨v, hno, -, -⟩⟩ := popStep_delivers hr
    · exact h.pops_none rfl hp hpub hd (popped_eq_nil hw rfl) (popped_eq_nil (s := { s with ring := r }) hw rfl)
        (fun hc => hempty (h.checks hc))
    · have hyes := h.checks (by rw [hw]; rfl)
      rw [hno] at hyes; cases hyes
  · rename_i hw
    obtain ⟨r, hr, rfl⟩ := Option.map_eq_some_iff.1 hst
    obtain ⟨hpub, hp, hnp, hpops⟩ := popStep_delivers hr
    have hno : s.popped = [] := by
      unfold popped
      rw [hw]
      split
      · rename_i he; cases he
      · rename_i hc; exact absurd hc (hnp _)
      · rfl
    have hcheck : ¬ checking ({ s with ring := r } : CommandPath T).waiter = true := by
      show ¬ checking s.waiter = true
      rw [hw]; exact Bool.false_ne_true
    refine h.waits rfl hp hpub ⟨rfl, rfl⟩ ?_ (fun hc => absurd hc hcheck)
    have hd := h.delivered
    rw [hno, List.append_nil] at hd
    rcases hpops with ⟨hd', hnp', -⟩ | ⟨v, -, hd', hret⟩
    · have hno' : ({ s with ring := r } : CommandPath T).popped = [] := by
        unfold popped
        rw [show ({ s with ring := r } : CommandPath T).waiter = .pop from hw]
        split
        · rename_i he; cases he
        · rename_i out _ hc
          cases out with
          | none => rfl
          | some v => exact absurd hc (hnp' v)
        · rfl
      rw [hno', List.append_nil]
      exact hd'.trans hd
    · have hhas : ({ s with ring := r } : CommandPath T).popped = [v] := by
        unfold popped
        rw [show ({ s with ring := r } : CommandPath T).waiter = .pop from hw,
          show ({ s with ring := r } : CommandPath T).ring.consumer = .popReturn (some v) from hret]
        rfl
      rw [hhas]
      exact hd'.trans (by rw [hd])
  · cases hst

theorem handover_checked (h : Handover s l) (hst : s.step .checked = some t) : Handover t l := by
  simp only [step] at hst
  split at hst
  · rename_i c e hw hc
    have hno : s.popped = [] := popped_eq_nil hw rfl
    obtain ⟨r, hr, hst⟩ := Option.bind_eq_some_iff.1 hst
    obtain rfl := consumer_return (.inl ⟨e, hc⟩) hr
    have hstop : ∀ p : WaiterPc T, (∀ out, p = .ret out → out = none) → p ≠ .pop → checking p = false →
        Handover { s with ring := { s.ring with consumer := .idle }, waiter := p } l := by
      intro p hret hpop hcheck
      refine h.pops_none rfl rfl rfl rfl hno ?_ (fun hc => by rw [hcheck] at hc; cases hc)
      unfold popped
      split
      · rename_i out hp
        rw [hret out hp]; rfl
      · rename_i hp _
        exact absurd hp hpop
      · rfl
    have hagain : ({ s with ring := { s.ring with consumer := .idle } } : CommandPath T).callEmpty .recheck = some t →
        Handover t l := by
      intro hcall
      obtain ⟨r, hr, rfl⟩ := callEmpty_eq hcall
      simp only [Spsc.step] at hr
      cases hr
      refine h.pops_none rfl rfl rfl rfl hno rfl (fun _ => ?_)
      show emptying (if _ then _ else _) = true
      split <;> rfl
    cases c with
    | loop =>
      cases e with
      | true => cases hst; exact hstop .block (fun out he => by cases he) (fun he => by cases he) rfl
      | false => exact hagain hst
    | deadline =>
      cases e with
      | true => cases hst; exact hstop (.ret none) (fun out he => by cases he; rfl) (fun he => by cases he) rfl
      | false => exact hagain hst
    | recheck =>
      cases e with
      | true => cases hst; exact hstop (.ret none) (fun out he => by cases he; rfl) (fun he => by cases he) rfl
      | false =>
        obtain ⟨r, hr, rfl⟩ := Option.map_eq_some_iff.1 hst
        simp only [Spsc.step] at hr
        cases hr
        refine h.pops_none rfl rfl rfl rfl hno ?_ (fun he => by cases he)
        unfold popped
        cases s.ring.initialized <;> rfl
  · cases hst

theorem handover_popped (h : Handover s l) (hst : s.step .popped = some t) : Handover t l := by
  simp only [step] at hst
  split at hst
  · rename_i out hw hc
    obtain ⟨r, hr, rfl⟩ := Option.map_eq_some_iff.1 hst
    obtain rfl := consumer_return (.inr ⟨out, hc⟩) hr
    refine h.waits rfl rfl rfl ⟨rfl, rfl⟩ ?_ (fun he => by cases he)
    show s.ring.delivered = l.taken ++ out.toList
    rw [h.delivered]
    unfold popped
    rw [hw, hc]
  · cases hst

theorem handover_unlock (h : Handover s l) (hst : s.step .unlock = some t) : Handover t (noteCommand l s .unlock) := by
  simp only [step] at hst
  split at hst
  · rename_i out hw
    cases hst
    simp only [noteCommand, hw]
    refine h.waits rfl rfl rfl ⟨rfl, rfl⟩ ?_ (fun he => by cases he)
    show s.ring.delivered = l.taken ++ out.toList ++ []
    rw [List.append_nil, h.delivered]
    unfold popped
    rw [hw]
  · cases hst

/-- **Each step keeps what its callers see in line with the ring.** -/
theorem handover_step {a : CommandAct T} (h : Handover s l) (hst : s.step a = some t) :
    Handover t (noteCommand l s a) := by
  cases a with
  | sendCommand cmd => exact handover_sendCommand h hst
  | sender b => exact handover_sender h hst
  | pushed => exact handover_pushed h hst
  | notifyOne => exact handover_notifyOne h hst
  | sent => exact handover_sent h hst
  | waitPopFor =>
    simp only [step] at hst
    split at hst
    · rename_i hw
      cases hst
      exact h.goes hw rfl rfl rfl rfl rfl
    · cases hst
  | lock =>
    simp only [step] at hst
    split at hst
    · rename_i hw _
      have hno : s.popped = [] := popped_eq_nil hw rfl
      split at hst
      · cases hst
        exact h.pops_none rfl rfl rfl rfl hno rfl (fun he => by cases he)
      · exact handover_callEmpty h (u := { s with waitMutex := true }) rfl rfl hno hst
    · cases hst
  | waiter b => exact handover_waiter h hst
  | checked => exact handover_checked h hst
  | block =>
    simp only [step] at hst
    split at hst
    · rename_i hw
      cases hst
      exact h.goes hw rfl rfl rfl rfl rfl
    · cases hst
  | wake =>
    simp only [step] at hst
    split at hst
    · rename_i hw
      cases hst
      exact h.goes hw rfl rfl rfl rfl rfl
    · cases hst
  | relock timedOut =>
    simp only [step] at hst
    split at hst
    · rename_i hw _
      have hno : s.popped = [] := popped_eq_nil hw rfl
      exact handover_callEmpty h (u := { s with waitMutex := true }) rfl rfl hno hst
    · cases hst
  | popped => exact handover_popped h hst
  | unlock => exact handover_unlock h hst

end Step

theorem handover_init [Inhabited T] (rb : SpScRingBuffer T) : Handover (init rb) {} :=
  ⟨rfl, rfl, (fun he => by cases he), (fun he => by cases he)⟩

/-- **What lies in the ring buffer** of capacity `n`: the newest writes in the slots from `m_tail` up to `m_head`. -/
structure Content (n : Nat) (r : Spsc T) (l : List T) : Prop where
  length : l.length = (r.head.latest.toNat + n - r.tail.latest.toNat) % n
  slots  : ∀ i v, l[i]? = some v → (r.slots ((r.tail.latest.toNat + i) % n)).getLast?.map Write.value = some v

/-- The difference of two counters less than `n` apart, from their remainders. -/
theorem mod_add_sub_mod {a b n : Nat} (hle : a ≤ b) (hlt : b < a + n) : (b % n + n - a % n) % n = b - a := by
  obtain ⟨d, rfl⟩ := Nat.exists_eq_add_of_le hle
  have hd : d < n := by omega
  have ha : a % n < n := Nat.mod_lt _ (by omega)
  by_cases hwrap : a % n + d < n
  · have hb : (a + d) % n = a % n + d := by rw [Nat.add_mod, Nat.mod_eq_of_lt hd, Nat.mod_eq_of_lt hwrap]
    rw [hb, show a % n + d + n - a % n = d + n by omega, Nat.add_mod_right, Nat.mod_eq_of_lt hd]
    omega
  · have hb : (a + d) % n = a % n + d - n := by
      rw [Nat.add_mod, Nat.mod_eq_of_lt hd, Nat.mod_eq_sub_mod (by omega), Nat.mod_eq_of_lt (by omega)]
    rw [hb, show a % n + d - n + n - a % n = d by omega, Nat.mod_eq_of_lt hd]
    omega

theorem content_drop {n : Nat} {r : Spsc T} (h : Spsc.Inv n r) : Content n r (r.published.drop r.tail.newest) := by
  have hbehind := h.behind
  have hroom := h.room
  refine ⟨?_, fun i v hv => ?_⟩
  · rw [h.head_latest, h.tail_latest, mod_add_sub_mod (by omega) (by omega), List.length_drop, h.published]
  · rw [List.getElem?_drop] at hv
    rw [h.tail_latest, Nat.mod_add_mod, h.slots _ v (Nat.le_add_right ..) hv]
    rfl

/-- **What has been accepted and not taken is in the ring buffer**, one less than its capacity at most. -/
theorem Handover.waiting {n : Nat} {s : CommandPath T} {l : CommandLog T} (h : Handover s l)
    (hring : Spsc.Inv n s.ring) : ∃ waiting, l.taken ++ s.popped ++ waiting = l.accepted ++ s.underway l ∧
      waiting.length + 1 ≤ n ∧ Content n s.ring waiting := by
  refine ⟨s.ring.published.drop s.ring.tail.newest, ?_, ?_, content_drop hring⟩
  · rw [← h.delivered, ← h.published, hring.fifo, List.take_append_drop]
  · have hpos := hring.pos
    have hroom := hring.room
    rw [List.length_drop, hring.published]
    omega

end CommandPath
end ThreadMessaging

import Mathlib.Algebra.BigOperators.Group.Finset.Basic
import Mathlib.Algebra.BigOperators.Group.Finset.Piecewise
import Mathlib.Algebra.Order.BigOperators.Group.Finset
import Mathlib.Data.Fintype.Basic
import Mathlib.Data.List.Infix
import ThreadMessaging.Machine
/-!
# Linearizability

A `SeqObject` is an object used by one call at a time.  A history of the calls and returns of any number of threads is
`Linearizable` if some order of the calls' effects explains it: the object takes them one by one (`replay`), each
thread's calls come with the answers they have returned with, and at every moment of the history the effects so far are
those of all the calls that have returned and of none that has not been called (so a call that returns before another
begins comes before it).

`Locked` is the object with a lock around each effect: a thread calls, has its effect, and returns, three steps.  Its
histories are linearizable (`Locked.Explains.linearizable`), and so are those of any machine whose steps it can follow
(`linearizable_of_simulation`).
-/
namespace ThreadMessaging

/-- An object used by one call at a time; `none` is a call that has to wait. -/
structure SeqObject (σ α ω : Type) where
  init  : σ
  apply : σ → α → Option (σ × ω)

/-- A call with its answer. -/
structure Effect (ι α ω : Type) where
  thread : ι
  op     : α
  answer : ω
  deriving DecidableEq, Repr

inductive CallEvent (ι α ω : Type)
  | call (i : ι) (op : α)
  | ret (i : ι) (answer : ω)
  deriving DecidableEq, Repr

variable {σ ι α ω : Type}

def CallEvent.thread : CallEvent ι α ω → ι
  | .call i _  => i
  | .ret i _  => i

namespace SeqObject

variable (Q : SeqObject σ α ω)

/-- The effects one by one: the state after them, if the object gives these answers. -/
def replay [DecidableEq ω] : σ → List (Effect ι α ω) → Option σ
  | s, []      => some s
  | s, e :: es =>
    match Q.apply s e.op with
    | some (t, answer) => if answer = e.answer then replay t es else none
    | none             => none

variable [DecidableEq ω] {Q}

theorem replay_append {s t : σ} {es : List (Effect ι α ω)} (h : Q.replay s es = some t) (fs : List (Effect ι α ω)) :
    Q.replay s (es ++ fs) = Q.replay t fs := by
  induction es generalizing s with
  | nil =>
    obtain rfl := Option.some.inj h
    rfl
  | cons e es ih =>
    simp only [replay] at h
    rw [List.cons_append]
    simp only [replay]
    split at h
    · split at h
      · rename_i hans
        rw [if_pos hans]
        exact ih h
      · cases h
    · cases h

theorem exists_of_replay_append {s u : σ} {es fs : List (Effect ι α ω)} (h : Q.replay s (es ++ fs) = some u) :
    ∃ t, Q.replay s es = some t := by
  induction es generalizing s with
  | nil => exact ⟨s, rfl⟩
  | cons e es ih =>
    rw [List.cons_append] at h
    simp only [replay] at h ⊢
    split at h
    · split at h
      · rename_i hans
        rw [if_pos hans]
        exact ih h
      · cases h
    · cases h

theorem replay_singleton {s t : σ} {e : Effect ι α ω} (h : Q.apply s e.op = some (t, e.answer)) :
    Q.replay s [e] = some t := by
  simp only [replay, h, if_true]

end SeqObject

section History

variable [DecidableEq ι]

/-- What thread `i` did, of all the events. -/
def eventsOf (i : ι) (h : List (CallEvent ι α ω)) : List (CallEvent ι α ω) := h.filter (fun e => e.thread = i)

def effectsOf (i : ι) (es : List (Effect ι α ω)) : List (Effect ι α ω) := es.filter (fun e => e.thread = i)

/-- The effects as calls that return at once. -/
def callsAndReturns (es : List (Effect ι α ω)) : List (CallEvent ι α ω) :=
  es.flatMap (fun e => [.call e.thread e.op, .ret e.thread e.answer])

theorem eventsOf_append (i : ι) (e : CallEvent ι α ω) :
    eventsOf i (h ++ [e]) = if e.thread = i then eventsOf i h ++ [e] else eventsOf i h := by
  unfold eventsOf
  rw [List.filter_append]
  split
  · rename_i he; simp [he]
  · rename_i he; simp [he]

theorem effectsOf_append (i : ι) (es : List (Effect ι α ω)) (e : Effect ι α ω) :
    effectsOf i (es ++ [e]) = if e.thread = i then effectsOf i es ++ [e] else effectsOf i es := by
  unfold effectsOf
  rw [List.filter_append]
  split
  · rename_i he; simp [he]
  · rename_i he; simp [he]

omit [DecidableEq ι] in
theorem callsAndReturns_append (es : List (Effect ι α ω)) (e : Effect ι α ω) :
    callsAndReturns (es ++ [e]) = callsAndReturns es ++ [.call e.thread e.op, .ret e.thread e.answer] := by
  simp [callsAndReturns]

/-- **A thread's events and its effects agree**, but for the call in progress: that has had its effect or not. -/
inductive Agrees (i : ι) : List (CallEvent ι α ω) → List (Effect ι α ω) → Prop
  | returned (es : List (Effect ι α ω)) : Agrees i (callsAndReturns es) es
  | called (es : List (Effect ι α ω)) (op : α) : Agrees i (callsAndReturns es ++ [.call i op]) es
  | done (es : List (Effect ι α ω)) (op : α) (answer : ω) :
      Agrees i (callsAndReturns es ++ [.call i op]) (es ++ [⟨i, op, answer⟩])

/-- **Some order of effects explains the history**, and each part of it that explains a beginning of the history is a
beginning itself. -/
def Linearizable [DecidableEq ω] (Q : SeqObject σ α ω) (h : List (CallEvent ι α ω)) : Prop :=
  ∃ es s, Q.replay Q.init es = some s ∧
    ∀ h', h' <+: h → ∃ es', es' <+: es ∧ ∀ i, Agrees i (eventsOf i h') (effectsOf i es')

end History

/-! ## Counting calls and answers -/

section Count

variable [DecidableEq ι] (op : α → Bool) (answer : ω → Bool)

def callsWith (op : α → Bool) : CallEvent ι α ω → Bool
  | .call _ x => op x
  | .ret _ _  => false

def returnsWith (answer : ω → Bool) : CallEvent ι α ω → Bool
  | .call _ _ => false
  | .ret _ x  => answer x

omit [DecidableEq ι] in
theorem countP_callsAndReturns (es : List (Effect ι α ω)) :
    (callsAndReturns es).countP (callsWith op) = es.countP (fun e => op e.op) ∧
      (callsAndReturns es).countP (returnsWith answer) = es.countP (fun e => answer e.answer) := by
  induction es with
  | nil => exact ⟨rfl, rfl⟩
  | cons e es ih =>
    have hcons : callsAndReturns (e :: es) = .call e.thread e.op :: .ret e.thread e.answer :: callsAndReturns es := rfl
    rw [hcons]
    simp only [List.countP_cons, callsWith, returnsWith, ih.1, ih.2]
    exact ⟨rfl, rfl⟩

omit [DecidableEq ι] in
/-- A thread has returned with no more answers than its effects have given, which are of calls it has made. -/
theorem Agrees.countP_le {i : ι} {h : List (CallEvent ι α ω)} {es : List (Effect ι α ω)} (ha : Agrees i h es) :
    h.countP (returnsWith answer) ≤ es.countP (fun e => answer e.answer) ∧
      es.countP (fun e => op e.op) ≤ h.countP (callsWith op) := by
  cases ha with
  | returned es =>
    obtain ⟨hc, ha⟩ := countP_callsAndReturns op answer es
    exact ⟨ha.le, hc.ge⟩
  | called es x =>
    obtain ⟨hc, ha⟩ := countP_callsAndReturns op answer es
    rw [List.countP_append, List.countP_append, ha, hc]
    exact ⟨Nat.le_refl _, Nat.le_add_right _ _⟩
  | done es x y =>
    obtain ⟨hc, ha⟩ := countP_callsAndReturns op answer es
    simp only [List.countP_append, ha, hc, List.countP_singleton, callsWith, returnsWith]
    exact ⟨Nat.le_add_right _ _, Nat.le_refl _⟩

/-- What is counted is counted thread by thread. -/
theorem countP_eq_sum [Fintype ι] {β : Type} (thread : β → ι) (p : β → Bool) (l : List β) :
    l.countP p = ∑ i, (l.filter (fun x => thread x = i)).countP p := by
  induction l with
  | nil => simp
  | cons x l ih =>
    have hone : ∀ i, ((x :: l).filter (fun x => thread x = i)).countP p =
        (l.filter (fun x => thread x = i)).countP p + if thread x = i then (if p x then 1 else 0) else 0 := by
      intro i
      by_cases hx : thread x = i
      · simp [hx, List.countP_cons]
      · simp [hx]
    rw [List.countP_cons, ih, Finset.sum_congr rfl (fun i _ => hone i), Finset.sum_add_distrib, Finset.sum_ite_eq]
    simp

/-- **What an object gives out no more often than it is given**, a linearizable history does not either. -/
theorem Linearizable.countP_le [Fintype ι] [DecidableEq ω] {Q : SeqObject σ α ω} {h : List (CallEvent ι α ω)}
    (hl : Linearizable Q h) (hQ : ∀ (es : List (Effect ι α ω)) s, Q.replay Q.init es = some s →
      es.countP (fun e => answer e.answer) ≤ es.countP (fun e => op e.op)) :
    h.countP (returnsWith answer) ≤ h.countP (callsWith op) := by
  obtain ⟨es, s, hes, hpre⟩ := hl
  obtain ⟨es', ⟨rest, rfl⟩, hall⟩ := hpre h List.prefix_rfl
  obtain ⟨t, ht⟩ := SeqObject.exists_of_replay_append hes
  calc h.countP (returnsWith answer)
      = ∑ i, (eventsOf i h).countP (returnsWith answer) := countP_eq_sum CallEvent.thread _ h
    _ ≤ ∑ i, (effectsOf i es').countP (fun e => answer e.answer) :=
        Finset.sum_le_sum (fun i _ => ((hall i).countP_le op answer).1)
    _ = es'.countP (fun e => answer e.answer) := (countP_eq_sum Effect.thread _ es').symm
    _ ≤ es'.countP (fun e => op e.op) := hQ es' t ht
    _ = ∑ i, (effectsOf i es').countP (fun e => op e.op) := countP_eq_sum Effect.thread _ es'
    _ ≤ ∑ i, (eventsOf i h).countP (callsWith op) :=
        Finset.sum_le_sum (fun i _ => ((hall i).countP_le op answer).2)
    _ = h.countP (callsWith op) := (countP_eq_sum CallEvent.thread _ h).symm

end Count

/-! ## The object with a lock around each effect -/

inductive CallPc (α ω : Type)
  | idle
  | called (op : α)
  | done (op : α) (answer : ω)
  deriving DecidableEq, Repr

structure Locked (σ ι α ω : Type) where
  state   : σ
  pc      : ι → CallPc α ω
  effects : List (Effect ι α ω)

inductive LockedAct (ι α ω : Type)
  | call (i : ι) (op : α)
  | effect (i : ι)
  | ret (i : ι)
  deriving DecidableEq, Repr

namespace Locked

variable [DecidableEq ι]

def setPc (s : Locked σ ι α ω) (i : ι) (p : CallPc α ω) : Locked σ ι α ω :=
  { s with pc := Function.update s.pc i p }

def step (Q : SeqObject σ α ω) (s : Locked σ ι α ω) : LockedAct ι α ω → Option (Locked σ ι α ω)
  | .call i op =>
    match s.pc i with
    | .idle => some (s.setPc i (.called op))
    | _     => none
  | .effect i =>
    match s.pc i with
    | .called op => (Q.apply s.state op).map (fun r =>
        { s.setPc i (.done op r.2) with state := r.1, effects := s.effects ++ [⟨i, op, r.2⟩] })
    | _ => none
  | .ret i =>
    match s.pc i with
    | .done _ _ => some (s.setPc i .idle)
    | _         => none

def machine (Q : SeqObject σ α ω) : Machine (Locked σ ι α ω) (LockedAct ι α ω) where
  init := { state := Q.init, pc := fun _ => .idle, effects := [] }
  step := step Q

/-- What a step shows: a call or a return. -/
def shows (s : Locked σ ι α ω) : LockedAct ι α ω → List (CallEvent ι α ω)
  | .call i op => [.call i op]
  | .effect _  => []
  | .ret i     =>
    match s.pc i with
    | .done _ answer => [.ret i answer]
    | _              => []

/-- **A run from one state to another, and what it shows.** -/
inductive Follows (Q : SeqObject σ α ω) : Locked σ ι α ω → List (CallEvent ι α ω) → Locked σ ι α ω → Prop
  | refl (s : Locked σ ι α ω) : Follows Q s [] s
  | step {s t u : Locked σ ι α ω} {es : List (CallEvent ι α ω)} (a : LockedAct ι α ω) (hst : step Q s a = some t)
      (h : Follows Q t es u) : Follows Q s (s.shows a ++ es) u

theorem follows_call {Q : SeqObject σ α ω} {s : Locked σ ι α ω} {i : ι} (op : α) (hpc : s.pc i = .idle) :
    ∃ t, Follows Q s [.call i op] t ∧ t.state = s.state ∧ t.pc = Function.update s.pc i (.called op) := by
  have hst : step Q s (.call i op) = some (s.setPc i (.called op)) := by simp only [step, hpc]
  exact ⟨_, .step _ hst (.refl _), rfl, rfl⟩

theorem follows_effect {Q : SeqObject σ α ω} {s : Locked σ ι α ω} {i : ι} {op : α} {st : σ} {answer : ω}
    (hpc : s.pc i = .called op) (happ : Q.apply s.state op = some (st, answer)) :
    ∃ t, Follows Q s [] t ∧ t.state = st ∧ t.pc = Function.update s.pc i (.done op answer) := by
  have hst : step Q s (.effect i) = some { s.setPc i (.done op answer) with
      state := st, effects := s.effects ++ [⟨i, op, answer⟩] } := by
    simp only [step, hpc, happ, Option.map_some]
  exact ⟨_, .step _ hst (.refl _), rfl, rfl⟩

theorem follows_ret {Q : SeqObject σ α ω} {s : Locked σ ι α ω} {i : ι} {op : α} {answer : ω}
    (hpc : s.pc i = .done op answer) :
    ∃ t, Follows Q s [.ret i answer] t ∧ t.state = s.state ∧ t.pc = Function.update s.pc i .idle := by
  have hst : step Q s (.ret i) = some (s.setPc i .idle) := by simp only [step, hpc]
  have hf := Follows.step _ hst (.refl (Q := Q) (s.setPc i .idle))
  rw [shows, hpc] at hf
  exact ⟨_, hf, rfl, rfl⟩

theorem Follows.append {Q : SeqObject σ α ω} {s t u : Locked σ ι α ω} {es fs : List (CallEvent ι α ω)}
    (h : Follows Q s es t) (h' : Follows Q t fs u) : Follows Q s (es ++ fs) u := by
  induction h with
  | refl s => exact h'
  | step a hst _ ih =>
    rw [List.append_assoc]
    exact .step a hst (ih h')

/-- A call that has its effect at once. -/
theorem follows_callEffect {Q : SeqObject σ α ω} {s : Locked σ ι α ω} {i : ι} (op : α) {st : σ} {answer : ω}
    (hpc : s.pc i = .idle) (happ : Q.apply s.state op = some (st, answer)) :
    ∃ t, Follows Q s [.call i op] t ∧ t.state = st ∧ t.pc = Function.update s.pc i (.done op answer) := by
  obtain ⟨t, hf, hstate, hpc'⟩ := follows_call (Q := Q) op hpc
  rw [← hstate] at happ
  obtain ⟨u, hf', hstate', hpc''⟩ := follows_effect (by rw [hpc', Function.update_self]) happ
  refine ⟨u, hf.append hf', hstate', ?_⟩
  rw [hpc'', hpc', Function.update_idem]

/-- A call that has its effect and returns at once. -/
theorem follows_whole {Q : SeqObject σ α ω} {s : Locked σ ι α ω} {i : ι} (op : α) {st : σ} {answer : ω}
    (hpc : s.pc i = .idle) (happ : Q.apply s.state op = some (st, answer)) :
    ∃ t, Follows Q s [.call i op, .ret i answer] t ∧ t.state = st ∧ t.pc = s.pc := by
  obtain ⟨t, hf, hstate, hpc'⟩ := follows_callEffect op hpc happ
  obtain ⟨u, hf', hstate', hpc''⟩ := follows_ret (Q := Q) (s := t) (i := i) (by rw [hpc', Function.update_self])
  refine ⟨u, hf.append hf', hstate'.trans hstate, ?_⟩
  rw [hpc'', hpc', Function.update_idem, ← hpc, Function.update_eq_self]

/-- A thread's events and effects, where it stands. -/
def ThreadAt (i : ι) (events : List (CallEvent ι α ω)) (effects : List (Effect ι α ω)) : CallPc α ω → Prop
  | .idle           => events = callsAndReturns effects
  | .called op      => events = callsAndReturns effects ++ [.call i op]
  | .done op answer => ∃ es, effects = es ++ [⟨i, op, answer⟩] ∧ events = callsAndReturns es ++ [.call i op]

omit [DecidableEq ι] in
theorem ThreadAt.agrees {i : ι} {events : List (CallEvent ι α ω)} {effects : List (Effect ι α ω)} {p : CallPc α ω}
    (h : ThreadAt i events effects p) : Agrees i events effects := by
  cases p with
  | idle =>
    rw [show events = _ from h]
    exact .returned effects
  | called op =>
    rw [show events = _ from h]
    exact .called effects op
  | done op answer =>
    obtain ⟨es, rfl, rfl⟩ := h
    exact .done es op answer

variable [DecidableEq ω] {Q : SeqObject σ α ω} {s t : Locked σ ι α ω} {h : List (CallEvent ι α ω)}

/-- **The effects explain what has been seen**, at every moment. -/
structure Explains (Q : SeqObject σ α ω) (s : Locked σ ι α ω) (h : List (CallEvent ι α ω)) : Prop where
  replay   : Q.replay Q.init s.effects = some s.state
  threads  : ∀ i, ThreadAt i (eventsOf i h) (effectsOf i s.effects) (s.pc i)
  prefixes : ∀ h', h' <+: h → ∃ es', es' <+: s.effects ∧ ∀ i, Agrees i (eventsOf i h') (effectsOf i es')

/-- A step of thread `i` that shows one event and has no effect. -/
theorem Explains.event (hx : Explains Q s h) {i : ι} {e : CallEvent ι α ω} {p : CallPc α ω} (he : e.thread = i)
    (hp : ThreadAt i (eventsOf i h ++ [e]) (effectsOf i s.effects) p) : Explains Q (s.setPc i p) (h ++ [e]) := by
  have hthreads : ∀ j, ThreadAt j (eventsOf j (h ++ [e])) (effectsOf j s.effects) ((s.setPc i p).pc j) := by
    intro j
    rw [eventsOf_append]
    show ThreadAt j _ _ (Function.update s.pc i p j)
    by_cases hj : j = i
    · subst hj
      rw [if_pos he, Function.update_self]
      exact hp
    · rw [if_neg (fun hne => hj (hne.symm.trans he)), Function.update_of_ne hj]
      exact hx.threads j
  refine ⟨hx.replay, hthreads, fun h' hpre => ?_⟩
  rcases List.prefix_concat_iff.1 hpre with rfl | hpre
  · exact ⟨s.effects, List.prefix_rfl, fun j => (hthreads j).agrees⟩
  · exact hx.prefixes h' hpre

theorem Explains.step (hx : Explains Q s h) {a : LockedAct ι α ω} (hst : step Q s a = some t) :
    Explains Q t (h ++ s.shows a) := by
  cases a with
  | call i op =>
    simp only [Locked.step] at hst
    split at hst
    · rename_i hpc
      cases hst
      have hi := hx.threads i
      rw [hpc] at hi
      exact hx.event rfl (congrArg (· ++ [CallEvent.call i op]) hi)
    · cases hst
  | effect i =>
    simp only [Locked.step] at hst
    split at hst
    · rename_i op hpc
      obtain ⟨r, hr, rfl⟩ := Option.map_eq_some_iff.1 hst
      refine ⟨?_, fun j => ?_, fun h' hpre => ?_⟩
      · exact (SeqObject.replay_append hx.replay _).trans (SeqObject.replay_singleton hr)
      · show ThreadAt j _ (effectsOf j (s.effects ++ [_])) (Function.update s.pc i _ j)
        rw [effectsOf_append, shows, List.append_nil]
        have hj := hx.threads j
        by_cases hji : j = i
        · subst hji
          rw [hpc] at hj
          rw [if_pos rfl, Function.update_self]
          exact ⟨_, rfl, hj⟩
        · rw [if_neg (Ne.symm hji), Function.update_of_ne hji]
          exact hj
      · rw [shows, List.append_nil] at hpre
        obtain ⟨es', hes, hall⟩ := hx.prefixes h' hpre
        exact ⟨es', hes.trans (List.prefix_append _ _), hall⟩
    · cases hst
  | ret i =>
    simp only [Locked.step] at hst
    split at hst
    · rename_i op answer hpc
      cases hst
      have hi := hx.threads i
      rw [hpc] at hi
      obtain ⟨es, hes, hevents⟩ := hi
      simp only [shows, hpc]
      refine hx.event rfl ?_
      show _ = callsAndReturns _
      rw [hes, hevents, callsAndReturns_append, List.append_assoc]
      rfl
    · cases hst

theorem Explains.follows {es : List (CallEvent ι α ω)} (hx : Explains Q s h) (hf : Follows Q s es t) :
    Explains Q t (h ++ es) := by
  induction hf generalizing h with
  | refl s =>
    rw [List.append_nil]
    exact hx
  | step a hst _ ih =>
    rw [← List.append_assoc]
    exact ih (hx.step hst)

theorem explains_init (Q : SeqObject σ α ω) : Explains Q (machine (ι := ι) Q).init [] := by
  refine ⟨rfl, fun _ => rfl, fun h' hpre => ⟨[], List.prefix_rfl, fun i => ?_⟩⟩
  obtain rfl := List.prefix_nil.1 hpre
  exact .returned []

theorem Explains.linearizable (hx : Explains Q s h) : Linearizable Q h := ⟨s.effects, s.state, hx.replay, hx.prefixes⟩

end Locked

/-- **The rule**: a machine whose steps the atomic object can follow, showing the same calls and returns, has
linearizable histories. -/
theorem linearizable_of_simulation [DecidableEq ι] [DecidableEq ω] {τ β : Type} {Q : SeqObject σ α ω}
    {M : Machine τ β} {shows : τ → β → List (CallEvent ι α ω)} {R : τ → Locked σ ι α ω → Prop}
    (hinit : R M.init (Locked.machine Q).init)
    (hstep : ∀ u s b u', M.Reachable u → R u s → M.step u b = some u' →
      ∃ s', Locked.Follows Q s (shows u b) s' ∧ R u' s') {u : τ} {h : List (CallEvent ι α ω)}
    (hu : (M.withHistory [] (fun h u b _ => h ++ shows u b)).Reachable (u, h)) : Linearizable Q h := by
  have hall : ∃ s, R u s ∧ Locked.Explains Q s h := by
    refine hu.history_invariant (J := M.Reachable) (I := fun u h => ∃ s, R u s ∧ Locked.Explains Q s h)
      (fun _ hr => hr) ⟨_, hinit, Locked.explains_init Q⟩ (fun u h b u' hr hI hst => ?_)
    obtain ⟨s, hR, hx⟩ := hI
    obtain ⟨s', hf, hR'⟩ := hstep u s b u' hr hR hst
    exact ⟨s', hR', hx.follows hf⟩
  obtain ⟨s, -, hx⟩ := hall
  exact hx.linearizable

end ThreadMessaging

import ThreadMessaging.SpScDrain
/-!
# How far `wait_pop_for` is from its return

Wherever the observer stands in `wait_pop_for`, it is at most eighteen steps from its return if it is not woken before
its timeout, and each of them takes it one nearer, whatever the sender does and whatever its loads return
(`left_step`).  A check before the timeout may send it back to sleep, and costs it six more at most.
-/
namespace ThreadMessaging
namespace CommandPath

variable {T : Type} {s t : CommandPath T}

/-- The steps before the consumer until its `wait_pop_for` returns, if no wake-up falls before the timeout. -/
def toReturn : WaiterPc T → ConsumerPc T → Nat
  | .idle, _                           => 0
  | .ret _, _                          => 0
  | .pop, .popReturn _                 => 1
  | .pop, .popStore _ _                => 2
  | .pop, .popCopy _                   => 3
  | .pop, .popLoadHead _               => 4
  | .pop, _                            => 5
  | .check .recheck, .emptyReturn _    => 6
  | .check .recheck, .emptyLoadHead _  => 7
  | .check .recheck, _                 => 8
  | .check .deadline, .emptyReturn _   => 9
  | .check .deadline, .emptyLoadHead _ => 10
  | .check .deadline, _                => 11
  | .woken, _                          => 12
  | .blocked, _                        => 13
  | .block, _                          => 14
  | .check .loop, .emptyReturn _       => 15
  | .check .loop, .emptyLoadHead _     => 16
  | .check .loop, _                    => 17
  | .lock, _                           => 18

theorem toReturn_le (w : WaiterPc T) (c : ConsumerPc T) : toReturn w c ≤ 18 := by
  unfold toReturn
  split <;> omega

/-- A wake-up before the timeout. -/
def early : CommandAct T → Bool
  | .relock timedOut => !timedOut
  | _                => false

def left (s : CommandPath T) : Nat := toReturn s.waiter s.ring.consumer

theorem left_popStep {r : Spsc T} {a : SpscAct T} (hf : WaiterFits s) (hst : popStep s.ring a = some r) :
    toReturn s.waiter r.consumer < s.left := by
  have hcall := hf.call
  unfold left
  rcases popStep_cases hst with ⟨-, hc, rfl⟩ | ⟨-, tail, out, hc, rfl⟩ | ⟨-, hc, rfl⟩ | ⟨j, head, tail, -, -, hc, rfl⟩ |
    ⟨j, head, tail, -, -, hc, rfl⟩ | ⟨k, tail, out, -, hc, rfl⟩
  · rw [hc] at hcall ⊢
    cases hw : s.waiter with
    | pop => exact Nat.lt_succ_self 4
    | _ => rw [hw] at hcall; cases hcall
  · rw [hc] at hcall ⊢
    cases hw : s.waiter with
    | pop => exact Nat.lt_succ_self 1
    | _ => rw [hw] at hcall; cases hcall
  · rw [hc] at hcall ⊢
    cases hw : s.waiter with
    | check c => cases c <;> exact Nat.lt_succ_self _
    | _ => rw [hw] at hcall; cases hcall
  · rw [hc] at hcall ⊢
    show toReturn s.waiter (if tail = head then .popReturn none else .popCopy tail) < _
    cases hw : s.waiter with
    | pop =>
      split
      · show 1 < 4; omega
      · exact Nat.lt_succ_self 3
    | _ => rw [hw] at hcall; cases hcall
  · rw [hc] at hcall ⊢
    cases hw : s.waiter with
    | check c => cases c <;> exact Nat.lt_succ_self _
    | _ => rw [hw] at hcall; cases hcall
  · rw [hc] at hcall ⊢
    cases hw : s.waiter with
    | pop => exact Nat.lt_succ_self 2
    | _ => rw [hw] at hcall; cases hcall

theorem left_callEmpty {c : WaitCheck} (hst : s.callEmpty c = some t) :
    t.left ≤ toReturn (.check c : WaiterPc T) .idle := by
  obtain ⟨r, hr, rfl⟩ := callEmpty_eq hst
  simp only [Spsc.step] at hr
  split at hr
  · cases hr
    show toReturn (.check c) (if !s.ring.initialized then .emptyReturn true else .emptyLoadTail) ≤ _
    split
    · cases c
      · show 15 ≤ 17; omega
      · show 9 ≤ 11; omega
      · show 6 ≤ 8; omega
    · cases c <;> exact Nat.le_refl _
  · cases hr

theorem left_checked {c : WaitCheck} {e : Bool} (hw : s.waiter = .check c) (hc : s.ring.consumer = .emptyReturn e)
    (hst : s.checked c e = some t) : t.left < s.left := by
  obtain ⟨r, hr, hst⟩ := Option.bind_eq_some_iff.1 hst
  have hleft : s.left = toReturn (.check c : WaiterPc T) (.emptyReturn e) := by unfold left; rw [hw, hc]
  rw [hleft]
  have hagain : callEmpty { s with ring := r } .recheck = some t → t.left ≤ 8 := left_callEmpty
  cases c with
  | loop =>
    cases e with
    | true => cases hst; exact Nat.lt_succ_self 14
    | false => exact Nat.lt_of_le_of_lt (hagain hst) (by show 8 < 15; omega)
  | deadline =>
    cases e with
    | true => cases hst; show 0 < 9; omega
    | false => exact Nat.lt_of_le_of_lt (hagain hst) (by show 8 < 9; omega)
  | recheck =>
    cases e with
    | true => cases hst; show 0 < 6; omega
    | false =>
      obtain ⟨r', hr', rfl⟩ := Option.map_eq_some_iff.1 hst
      simp only [Spsc.step] at hr'
      split at hr'
      · cases hr'
        show toReturn .pop (if !r.initialized then .popReturn none else .popLoadTail) < 6
        split
        · show 1 < 6; omega
        · show 5 < 6; omega
      · cases hr'

/-- A step of the sender's takes the consumer nowhere, or out of its sleep. -/
theorem left_sender {a : CommandAct T} (ha : bySender a = true) (hst : s.step a = some t) : t.left ≤ s.left := by
  unfold left
  obtain ⟨hc, -, hw | ⟨hb, hw⟩⟩ := sender_side ha hst
  · rw [hw, hc]
  · rw [hb, hw]
    exact Nat.le_succ 12

/-- **A step inside `wait_pop_for` brings it nearer to its return**, but for a check before the timeout; no other takes
it back. -/
theorem left_step {a : CommandAct T} (hf : WaiterFits s) (ha : a ≠ .waitPopFor) (ha' : a ≠ .unlock)
    (hst : s.step a = some t) : (inWait a).toNat + t.left ≤ 6 * (early a).toNat + s.left := by
  have hplace : ∀ {w : WaiterPc T}, s.waiter = w → s.left = toReturn w s.ring.consumer := by
    rintro w rfl
    rfl
  cases a with
  | waitPopFor => exact absurd rfl ha
  | unlock => exact absurd rfl ha'
  | sendCommand cmd => exact Nat.add_le_add_left (left_sender rfl hst) 0
  | sender b => exact Nat.add_le_add_left (left_sender rfl hst) 0
  | pushed => exact Nat.add_le_add_left (left_sender rfl hst) 0
  | notifyOne => exact Nat.add_le_add_left (left_sender rfl hst) 0
  | sent => exact Nat.add_le_add_left (left_sender rfl hst) 0
  | lock =>
    simp only [step] at hst
    split at hst
    · rename_i hw hm
      rw [hplace hw]
      split at hst
      · cases hst
        show 1 + 0 ≤ 0 + 18
        omega
      · have hle : t.left ≤ 17 := left_callEmpty hst
        show 1 + t.left ≤ 0 + 18
        omega
    · cases hst
  | waiter b =>
    have hpop : ∀ {r : Spsc T}, popStep s.ring b = some r → t = { s with ring := r } →
        (inWait (.waiter b : CommandAct T)).toNat + t.left ≤ 6 * (early (.waiter b : CommandAct T)).toNat + s.left := by
      rintro r hr rfl
      have hlt := left_popStep hf hr
      show 1 + toReturn s.waiter r.consumer ≤ 0 + s.left
      omega
    simp only [step] at hst
    split at hst
    · obtain ⟨r, hr, heq⟩ := Option.map_eq_some_iff.1 hst
      exact hpop hr heq.symm
    · obtain ⟨r, hr, heq⟩ := Option.map_eq_some_iff.1 hst
      exact hpop hr heq.symm
    · cases hst
  | checked =>
    simp only [step] at hst
    split at hst
    · rename_i c e hw hc
      have hlt := left_checked hw hc hst
      show 1 + t.left ≤ 0 + s.left
      omega
    · cases hst
  | block =>
    simp only [step] at hst
    split at hst
    · rename_i hw
      cases hst
      rw [hplace hw]
      show 1 + 13 ≤ 0 + 14
      omega
    · cases hst
  | wake =>
    simp only [step] at hst
    split at hst
    · rename_i hw
      cases hst
      rw [hplace hw]
      show 1 + 12 ≤ 0 + 13
      omega
    · cases hst
  | relock timedOut =>
    simp only [step] at hst
    split at hst
    · rename_i hw hm
      rw [hplace hw]
      have hle := left_callEmpty hst
      cases timedOut with
      | true =>
        have hle : t.left ≤ 11 := hle
        show 1 + t.left ≤ 0 + 12
        omega
      | false =>
        have hle : t.left ≤ 17 := hle
        show 1 + t.left ≤ 6 + 12
        omega
    · cases hst
  | popped =>
    simp only [step] at hst
    split at hst
    · rename_i out hw hc
      obtain ⟨r, hr, rfl⟩ := Option.map_eq_some_iff.1 hst
      unfold left
      rw [hw, hc]
      show 1 + 0 ≤ 0 + 1
      omega
    · cases hst

theorem waiter_busy_step {a : CommandAct T} (hw : s.waiter ≠ .idle) (ha : a ≠ .unlock) (hst : s.step a = some t) :
    t.waiter ≠ .idle := by
  have hcall : ∀ {u : CommandPath T} {c : WaitCheck}, u.callEmpty c = some t → t.waiter ≠ .idle := by
    intro u c hcall
    obtain ⟨r, -, rfl⟩ := callEmpty_eq hcall
    exact fun he => by cases he
  have hsend : bySender a = true → t.waiter ≠ .idle := by
    intro hs
    rcases (sender_side hs hst).2.2 with heq | ⟨-, hwoken⟩
    · rw [heq]; exact hw
    · rw [hwoken]; exact fun he => by cases he
  cases a with
  | unlock => exact absurd rfl ha
  | sendCommand cmd => exact hsend rfl
  | sender b => exact hsend rfl
  | pushed => exact hsend rfl
  | notifyOne => exact hsend rfl
  | sent => exact hsend rfl
  | waitPopFor => simp [step] at hst
  | lock =>
    simp only [step] at hst
    split at hst
    · split at hst
      · cases hst; exact fun he => by cases he
      · exact hcall hst
    · cases hst
  | waiter b =>
    simp only [step] at hst
    split at hst
    · obtain ⟨r, -, rfl⟩ := Option.map_eq_some_iff.1 hst
      exact hw
    · obtain ⟨r, -, rfl⟩ := Option.map_eq_some_iff.1 hst
      exact hw
    · cases hst
  | checked =>
    simp only [step] at hst
    split at hst
    · rename_i c e hcheck hc
      obtain ⟨r, -, hst⟩ := Option.bind_eq_some_iff.1 hst
      split at hst
      · cases hst; exact fun he => by cases he
      · exact hcall hst
      · cases hst; exact fun he => by cases he
      · exact hcall hst
      · cases hst; exact fun he => by cases he
      · obtain ⟨r', -, rfl⟩ := Option.map_eq_some_iff.1 hst
        exact fun he => by cases he
    · cases hst
  | block =>
    simp only [step] at hst
    split at hst
    · cases hst; exact fun he => by cases he
    · cases hst
  | wake =>
    simp only [step] at hst
    split at hst
    · cases hst; exact fun he => by cases he
    · cases hst
  | relock timedOut =>
    simp only [step] at hst
    split at hst
    · exact hcall hst
    · cases hst
  | popped =>
    simp only [step] at hst
    split at hst
    · obtain ⟨r, -, rfl⟩ := Option.map_eq_some_iff.1 hst
      exact fun he => by cases he
    · cases hst

end CommandPath
end ThreadMessaging

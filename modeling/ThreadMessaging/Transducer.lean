import Mathlib.Logic.Basic
/-!
# Transducers: programs that answer, and their refinement

A `Transducer` is a sequential program: each call moves its state and gives an answer.  One refines another by a
relation between their states that holds at first, under which the two answer a call alike, and which the call keeps
(`Refines`).  Then they answer every sequence of calls alike, and the states after it are related (`Refines.runFrom`).
-/
namespace ThreadMessaging

structure Transducer (σ α ω : Type) where
  init : σ
  call : σ → α → σ × ω

namespace Transducer

variable {σ τ α ω : Type}

/-- The state after a sequence of calls, and the answers. -/
def runFrom (P : Transducer σ α ω) : σ → List α → σ × List ω
  | s, []      => (s, [])
  | s, a :: as => ((P.runFrom (P.call s a).1 as).1, (P.call s a).2 :: (P.runFrom (P.call s a).1 as).2)

def run (P : Transducer σ α ω) (as : List α) : σ × List ω := P.runFrom P.init as

/-- **The relation `R` shows that `P` refines `Q`.** -/
structure Refines (P : Transducer σ α ω) (Q : Transducer τ α ω) (R : σ → τ → Prop) : Prop where
  init : R P.init Q.init
  call : ∀ s t a, R s t → (P.call s a).2 = (Q.call t a).2 ∧ R (P.call s a).1 (Q.call t a).1

theorem Refines.runFrom {P : Transducer σ α ω} {Q : Transducer τ α ω} {R : σ → τ → Prop} (h : Refines P Q R) :
    ∀ {s : σ} {t : τ} (as : List α), R s t →
      (P.runFrom s as).2 = (Q.runFrom t as).2 ∧ R (P.runFrom s as).1 (Q.runFrom t as).1
  | s, t, [], hst => ⟨rfl, hst⟩
  | s, t, a :: as, hst => by
    obtain ⟨hans, hnext⟩ := h.call s t a hst
    obtain ⟨hanss, hlast⟩ := h.runFrom as hnext
    refine ⟨?_, hlast⟩
    show (P.call s a).2 :: _ = (Q.call t a).2 :: _
    rw [hans, hanss]

/-- **Refinement is for every sequence of calls.** -/
theorem Refines.run {P : Transducer σ α ω} {Q : Transducer τ α ω} {R : σ → τ → Prop} (h : Refines P Q R)
    (as : List α) : (P.run as).2 = (Q.run as).2 ∧ R (P.run as).1 (Q.run as).1 :=
  h.runFrom as h.init

end Transducer
end ThreadMessaging

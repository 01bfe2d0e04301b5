import Hpack.Proofs.Decoder
import Hpack.Trace

namespace Hpack
namespace Trace

variable {ι σ α : Type}

-- Something is true of all steps of a run. It is said of the state before a step, of what the step has
-- come to and of the state after it, where the next step starts.
inductive Throughout (P : ι → σ → Except Fault α → σ → Prop) :
    σ → List ι → List (Entry σ α) → Prop
  | nil {s} : Throughout P s [] []
  | cons {s i e steps entries} :
    P i s e.outcome e.state → Throughout P e.state steps entries →
    Throughout P s (i :: steps) (e :: entries)

-- The state that a run has come to.
def reached (s : σ) (entries : List (Entry σ α)) : σ :=
  (entries.map (·.state)).getLastD s

theorem reached_cons {s : σ} {e : Entry σ α} {entries : List (Entry σ α)} :
    reached s (e :: entries) = reached e.state entries := by
  rw [reached, List.map_cons, List.getLastD_cons, reached]

variable {step : ι → EStateM Fault σ α} {P : ι → σ → Except Fault α → σ → Prop}

theorem trace_cons {s s' : σ} {i : ι} {outcome : Except Fault α} {steps : List ι}
    (h : step i s = leaving s' outcome) :
    trace step s (i :: steps) = ⟨outcome, s'⟩ :: trace step s' steps := by
  rw [trace, h]
  cases outcome <;> rfl

-- What a step does wherever it starts from is what all steps of a run do.
theorem throughout_trace
    (h : ∀ i s, ∃ outcome s', step i s = leaving s' outcome ∧ P i s outcome s') (s : σ)
    (steps : List ι) : Throughout P s steps (trace step s steps) := by
  induction steps generalizing s
  case nil => exact .nil
  case cons i steps hi =>
    have ⟨outcome, s', hs, hp⟩ := h i s
    rw [trace_cons hs]
    exact .cons hp (hi s')

end Trace
end Hpack

import Hpack.Fault

namespace Hpack

-- A step that has been made: what it came to and the state after it.
structure Trace.Entry (σ α : Type) where
  outcome : Except Fault α
  state   : σ

-- Makes steps one after the other. A step that fails does not end the run, but later steps start
-- from the state it has left.
def trace {ι σ α : Type} (step : ι → EStateM Fault σ α) (s : σ) :
    List ι → List (Trace.Entry σ α)
  | [] => []
  | i :: rest =>
    match step i s with
    | .ok a s'        => ⟨.ok a, s'⟩ :: trace step s' rest
    | .error fault s' => ⟨.error fault, s'⟩ :: trace step s' rest

end Hpack

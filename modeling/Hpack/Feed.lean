import Hpack.Decoder

namespace Hpack

-- What one request for an octet brings.
inductive Chunk
  | octets (data : List UInt8)
  | nothing
  | failure (message : String)
  deriving DecidableEq

-- A stream by the chunks it still has to deliver, one for each request. Requests go on to bring
-- nothing when there are no more chunks.
structure Feed where
  queue    : List Chunk
  consumed : Nat := 0
  requests : Nat := 0
  deriving DecidableEq

namespace Feed

-- A chunk is used up by one request. If it is longer than one octet, what follows is lost.
def pull : EStateM Fault Feed UInt8 := fun f =>
  let requested := { f with queue := f.queue.tail, requests := f.requests + 1 }
  match f.queue.head? with
  | some (.octets (octet :: _)) => .ok octet { requested with consumed := f.consumed + 1 }
  | some (.failure message)     => .error (.device message) requested
  | _                           => .error (.insufficient .stream) requested

instance : Source Feed where
  pull := pull

def supply (f : Feed) (chunks : List Chunk) : Feed :=
  { f with queue := f.queue ++ chunks }

-- What is done with a stream over time.
inductive Step
  | octet
  | integer (given : Width.Candidate)
  | supply (chunks : List Chunk)
  deriving DecidableEq

inductive Answer
  | nothing
  | number (n : Nat)
  deriving DecidableEq

def step : Step → EStateM Fault Feed Answer
  | .octet         => return .number (← Source.pull).toNat
  | .integer given => return .number (← Decoder.read given)
  | .supply chunks => do
    modify (·.supply chunks)
    return .nothing

end Feed
end Hpack

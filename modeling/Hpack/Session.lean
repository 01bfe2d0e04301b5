import Hpack.Decode
import Hpack.Encoder

namespace Hpack

-- A buffer which grows while it is read, with a position to come back to.
structure Session where
  buffer : Buffer
  mark   : Nat := 0
  deriving DecidableEq

namespace Session

def start (octets : List UInt8) (offset : Int) : Except Fault Session := do
  return { buffer := ← Buffer.start octets offset }

-- What is done with a session over time.
inductive Step
  | octet
  | integer (given : Width.Candidate)
  | seek (position : Int)
  | mark
  | rewind
  | restart (offset : Int)
  | decode (given : Width.Candidate) (offset : Int)
  | write (value : Int) (given : Width.Candidate) (flags : Int)
  | append (octets : List UInt8)
  | truncate (length : Nat)
  deriving DecidableEq

inductive Answer
  | nothing
  | number (n : Nat)
  | located (value position : Nat)
  deriving DecidableEq

-- Acts on the buffer alone.
def onBuffer {α : Type} (act : EStateM Fault Buffer α) : EStateM Fault Session α :=
  fun s =>
    match act s.buffer with
    | .ok a b        => .ok a { s with buffer := b }
    | .error fault b => .error fault { s with buffer := b }

-- Acts on the octets alone, so the position stays where it is.
def onOctets {α : Type} (act : EStateM Fault (List UInt8) α) : EStateM Fault Session α :=
  fun s =>
    match act s.buffer.octets with
    | .ok a octets        => .ok a { s with buffer.octets := octets }
    | .error fault octets => .error fault { s with buffer.octets := octets }

-- To restart is to read the same octets from an offset on, which leaves the mark where it is.
def step : Step → EStateM Fault Session Answer
  | .octet => return .number (← onBuffer Source.pull).toNat
  | .integer given => return .number (← onBuffer (Decoder.read given))
  | .seek position => do
    onBuffer (Buffer.seek position)
    return .nothing
  | .mark => do
    modify fun s => { s with mark := s.buffer.position }
    return .nothing
  | .rewind => do
    onBuffer (Buffer.seek (← get).mark)
    return .nothing
  | .restart offset => do
    onBuffer (Buffer.seek offset)
    return .nothing
  | .decode given offset => do
    let (value, position) ← ofExcept (Hpack.decode (← get).buffer.octets given offset)
    return .located value position
  | .write value given flags => return .number (← onOctets (Encoder.write value given flags))
  | .append octets => do
    onOctets (modify (· ++ octets))
    return .nothing
  | .truncate length => do
    onOctets (modify (·.take length))
    return .nothing

end Session
end Hpack

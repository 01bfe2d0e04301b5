import Hpack.Fault

namespace Hpack

-- Encoding appends to the octets that are there already. Nothing is appended unless the whole
-- integer is.
namespace Encoder

-- Numbers that are too large for an octet are refused, and what has been appended before stays.
def emit (octet : Nat) : EStateM Fault (List UInt8) Unit :=
  if octet ≤ 0xFF then
    modify (· ++ [UInt8.ofNat octet])
  else
    throw .oversized

-- The integers that can be written at a width.
def accept (value : Int) (given : Width.Candidate) : Except Fault (Nat × Width) := do
  let w ← Width.ofCandidate given
  if value < 0 then
    throw .negativeValue
  else if maxValue < value then
    throw (Fault.overflow value.toNat).raised
  else
    return (value.toNat, w)

-- Flags are bits of one octet that leave the prefix clear.
def acceptFlags (flags : Int) (w : Width) : Except Fault Nat :=
  if flags < 0 ∨ 0xFF < flags ∨ flags.toNat &&& w.mask ≠ 0 then
    throw (.misplacedFlags flags w)
  else
    return flags.toNat

-- Writes what is left of a value in groups of seven bits, the least significant one first, and
-- counts the octets on top of those which have been written already. All groups but the last have
-- the high bit set.
def continuation (remainder written : Nat) : EStateM Fault (List UInt8) Nat := do
  if remainder < 0x80 then
    emit remainder
    return written + 1
  else
    emit (0x80 ||| (remainder &&& 0x7F))
    continuation (remainder >>> 7) (written + 1)
termination_by remainder
decreasing_by
  rw [Nat.shiftRight_eq_div_pow]
  omega

-- Appends an integer and returns the number of its octets.
def write (value : Int) (given : Width.Candidate) (flags : Int) :
    EStateM Fault (List UInt8) Nat := do
  let (value, w) ← ofExcept (accept value given)
  let flags ← ofExcept (acceptFlags flags w)
  if value < w.mask then
    emit (flags ||| value)
    return 1
  else
    emit (flags ||| w.mask)
    continuation (value - w.mask) 1

-- The number of groups of seven bits, of which there is always one.
def groups (remainder : Nat) : Nat :=
  if remainder < 0x80 then 1 else groups (remainder >>> 7) + 1
termination_by remainder
decreasing_by
  rw [Nat.shiftRight_eq_div_pow]
  omega

end Encoder

def encode (value : Int) (given : Width.Candidate) (flags : Int) : Except Fault (List UInt8) :=
  match Encoder.write value given flags [] with
  | .ok _ octets   => .ok octets
  | .error fault _ => .error fault

-- The number of octets of an integer, without writing it.
def encodedLength (value : Int) (given : Width.Candidate) : Except Fault Nat := do
  let (value, w) ← Encoder.accept value given
  if value < w.mask then
    return 1
  else
    return 1 + Encoder.groups (value - w.mask)

end Hpack

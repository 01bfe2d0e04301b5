import Hpack.Decode
import Hpack.Encoder

namespace Hpack

-- An integer that has been written and read back.
structure RoundTrip where
  octets   : List UInt8
  length   : Nat
  value    : Nat
  position : Nat
  deriving DecidableEq

def roundTrip (value : Int) (given : Width.Candidate) (flags : Int) : Except Fault RoundTrip := do
  let octets ← encode value given flags
  let length ← encodedLength value given
  let (value, position) ← decode octets given 0
  return { octets, length, value, position }

end Hpack

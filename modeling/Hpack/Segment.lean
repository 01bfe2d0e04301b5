import Hpack.Decode

namespace Hpack

-- An integer and the octets it has been decoded from.
structure Segment where
  value  : Nat
  octets : List UInt8
  deriving DecidableEq

-- Decodes back-to-back integers up to the end of the octets or to the first fault.
def segments (octets : List UInt8) (given : Width.Candidate) (offset : Nat) :
    List Segment × Option Fault :=
  if offset < octets.length then
    match _h : decode octets given offset with
    | .error fault => ([], some fault)
    | .ok (value, next) =>
      let (rest, fault) := segments octets given next
      (⟨value, (octets.drop offset).take (next - offset)⟩ :: rest, fault)
  else
    ([], none)
termination_by octets.length - offset
decreasing_by
  have := lt_of_decode _h
  omega

end Hpack

import Hpack.Text.Blank

namespace Hpack
namespace Hex

-- The value of a digit of either case.
def value? (c : Char) : Option Nat :=
  if '0' ≤ c ∧ c ≤ '9' then some (c.toNat - '0'.toNat)
  else if 'a' ≤ c ∧ c ≤ 'f' then some (c.toNat - 'a'.toNat + 10)
  else if 'A' ≤ c ∧ c ≤ 'F' then some (c.toNat - 'A'.toNat + 10)
  else none

def pair (octet : UInt8) : List Char :=
  [Nat.digitChar (octet.toNat >>> 4), Nat.digitChar (octet.toNat &&& 0xF)]

def compact (octets : List UInt8) : List Char :=
  octets.flatMap pair

def spaced (octets : List UInt8) : List Char :=
  [' '].intercalate (octets.map pair)

-- The octets of a text of pairs. There may be blanks around pairs, but not within one.
def read : List Char → Option (List UInt8)
  | [] => some []
  | [c] => if Text.isAsciiBlank c then some [] else none
  | c :: d :: rest =>
    if Text.isAsciiBlank c then
      read (d :: rest)
    else do
      let high ← value? c
      let low ← value? d
      return UInt8.ofNat (high <<< 4 ||| low) :: (← read rest)

end Hex
end Hpack

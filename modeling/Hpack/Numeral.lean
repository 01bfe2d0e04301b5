namespace Hpack

-- The bases which integers are written in. All but the decimal one are announced by a marker.
inductive Base
  | binary
  | octal
  | decimal
  | hexadecimal
  deriving DecidableEq

namespace Base

def radix : Base → Nat
  | binary      => 2
  | octal       => 8
  | decimal     => 10
  | hexadecimal => 16

def marker : Base → List Char
  | binary      => ['0', 'b']
  | octal       => ['0', 'o']
  | decimal     => []
  | hexadecimal => ['0', 'x']

end Base

namespace Numeral

-- An integer as a sign, the marker of its base and its digits without leading zeros.
def write (b : Base) : Int → List Char
  | .ofNat n   => b.marker ++ Nat.toDigits b.radix n
  | .negSucc n => '-' :: b.marker ++ Nat.toDigits b.radix (n + 1)

-- Decimal numbers have at most this many digits. Longer ones are neither written nor read, since that
-- could take very long.
@[irreducible]
def maxDigits : Nat := 4300

-- There is no such limit where the base is a power of two.
def Writable (b : Base) (i : Int) : Prop :=
  b = .decimal → (Nat.toDigits 10 i.natAbs).length ≤ maxDigits

instance {b : Base} {i : Int} : Decidable (Writable b i) :=
  inferInstanceAs (Decidable (_ → _))

-- Only numbers that are `Writable` come to be shown by this.
def decimal (i : Int) : String :=
  String.ofList (write .decimal i)

-- Zeros between the sign and the digits fill a number up to `width` characters. The sign counts as
-- one of them.
def padded (b : Base) (width : Nat) : Int → List Char
  | .ofNat n   => fill width (Nat.toDigits b.radix n)
  | .negSucc n => '-' :: fill (width - 1) (Nat.toDigits b.radix (n + 1))
where
  fill (width : Nat) (digits : List Char) : List Char :=
    List.replicate (width - digits.length) '0' ++ digits

end Numeral
end Hpack

namespace Hpack

-- The number `digits * 10 ^ exponent`.
structure Decimal where
  digits   : Nat
  exponent : Int
  deriving DecidableEq

namespace Decimal

-- The exponent of the leading digit.
def magnitude (d : Decimal) : Int :=
  (Nat.toDigits 10 d.digits).length - 1 + d.exponent

-- The nearest number of binary64. Far beyond its range, the power of ten is not worked out.
def toFloat (d : Decimal) : Float :=
  if d.digits = 0 ∨ d.magnitude < -400 then 0
  else if 400 < d.magnitude then 1 / 0
  else if d.exponent < 0 then Float.ofScientific d.digits true d.exponent.natAbs
  else Float.ofScientific d.digits false d.exponent.natAbs

end Decimal
end Hpack

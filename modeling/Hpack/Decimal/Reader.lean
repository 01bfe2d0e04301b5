import Hpack.Decimal
import Hpack.Text.Plain

namespace Hpack
namespace Decimal

-- Takes out the underscores, each of which has to stand between two digits.
def ungroup (before : Char) : List Char → Option (List Char)
  | [] => some []
  | '_' :: c :: rest => if before.isDigit ∧ c.isDigit then ungroup '_' (c :: rest) else none
  | '_' :: [] => none
  | c :: rest => (ungroup c rest).map (c :: ·)

def natural (digits : List Char) : Nat :=
  Nat.ofDigitChars 10 digits 0

def exponent? : List Char → Option Int
  | '-' :: t => (digits? t).map (-·)
  | '+' :: t => (digits? t).map (↑·)
  | t        => (digits? t).map (↑·)
where
  digits? (t : List Char) : Option Nat :=
    if t ≠ [] ∧ t.all Char.isDigit then some (natural t) else none

-- Digits with at most one point among them, and possibly a power of ten.
def read (t : List Char) : Option Decimal :=
  let whole := t.takeWhile Char.isDigit
  let (fraction, rest) :=
    match t.dropWhile Char.isDigit with
    | '.' :: u => (u.takeWhile Char.isDigit, u.dropWhile Char.isDigit)
    | u        => ([], u)
  if whole ++ fraction = [] then
    none
  else
    let scaled (e : Int) : Decimal := ⟨natural (whole ++ fraction), e - fraction.length⟩
    match rest with
    | []       => some (scaled 0)
    | 'e' :: u => (exponent? u).map scaled
    | 'E' :: u => (exponent? u).map scaled
    | _        => none

-- What is beyond all decimal numbers has names of its own, in any case.
def readMagnitude (t : List Char) : Option Float :=
  match String.ofList (t.map Char.toLower) with
  | "inf"      => some (1 / 0)
  | "infinity" => some (1 / 0)
  | "nan"      => some (0 / 0)
  | _          => (read t).map toFloat

-- The number of binary64 that is nearest to the written one.
def readFloat (t : List Char) : Option Float := do
  match ← ungroup ' ' (Text.plain t) with
  | '-' :: u => (readMagnitude u).map (-·)
  | '+' :: u => readMagnitude u
  | u        => readMagnitude u

end Decimal
end Hpack

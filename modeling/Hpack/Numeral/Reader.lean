import Hpack.Hex
import Hpack.Numeral
import Hpack.Text.Plain

namespace Hpack
namespace Numeral

def digit? (b : Base) (c : Char) : Option Nat :=
  (Hex.value? c).filter (· < b.radix)

-- The number whose leading digits come to `n`. A single underscore may stand before each digit.
def further (b : Base) (n : Nat) : List Char → Option Nat
  | [] => some n
  | '_' :: c :: rest => do further b (b.radix * n + (← digit? b c)) rest
  | c :: rest        => do further b (b.radix * n + (← digit? b c)) rest

def digits? (b : Base) : List Char → Option Nat
  | []        => none
  | c :: rest => do further b (← digit? b c) rest

-- Zeros in front count as digits, underscores do not.
def decimalDigits? (t : List Char) : Option Nat :=
  if (t.filter (· ≠ '_')).length ≤ maxDigits then digits? .decimal t else none

def afterMarker? (b : Base) : List Char → Option Nat
  | '_' :: rest => digits? b rest
  | t           => digits? b t

-- A number that may be announced by the marker of its base in either case. Without a marker it is
-- decimal, and then only zero starts with a zero.
def marked? : List Char → Option Nat
  | '0' :: 'b' :: t => afterMarker? .binary t
  | '0' :: 'B' :: t => afterMarker? .binary t
  | '0' :: 'o' :: t => afterMarker? .octal t
  | '0' :: 'O' :: t => afterMarker? .octal t
  | '0' :: 'x' :: t => afterMarker? .hexadecimal t
  | '0' :: 'X' :: t => afterMarker? .hexadecimal t
  | '0' :: t        => (decimalDigits? ('0' :: t)).filter (· = 0)
  | t               => decimalDigits? t

def signed? (magnitude? : List Char → Option Nat) : List Char → Option Int
  | '-' :: t => (magnitude? t).map (-·)
  | '+' :: t => (magnitude? t).map (↑·)
  | t        => (magnitude? t).map (↑·)

-- Reads decimal numbers only, which may start with zeros.
def readDecimal (t : List Char) : Option Int :=
  signed? decimalDigits? (Text.plain t)

-- Reads numbers in the base that their marker says.
def read (t : List Char) : Option Int :=
  signed? marked? (Text.plain t)

end Numeral
end Hpack

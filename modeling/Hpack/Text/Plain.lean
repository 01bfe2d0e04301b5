import Hpack.Text.Blank
import Hpack.Text.Digit

namespace Hpack
namespace Text

-- The character of ASCII that stands for the same digit or blank, if there is one.
def plainChar (c : Char) : Char :=
  if c.toNat < 128 then c
  else if isWideBlank c then ' '
  else (decimalValue? c).elim c Nat.digitChar

-- The text that numbers are read from: digits and blanks of all scripts are as good as those of
-- ASCII, and blanks around a number do not matter.
def plain (t : List Char) : List Char :=
  trim (t.map plainChar)

end Text
end Hpack

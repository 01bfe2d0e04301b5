namespace Hpack
namespace Text

-- Space, tab, line feed, vertical tab, form feed and carriage return.
def isAsciiBlank (c : Char) : Bool :=
  c = ' ' ∨ ('\t' ≤ c ∧ c ≤ '\r')

-- The characters with the Unicode property `White_Space` that are not in ASCII.
def isWideBlank (c : Char) : Bool :=
  (0x2000 ≤ c.toNat ∧ c.toNat ≤ 0x200A) ∨
    c.toNat ∈ [0x85, 0xA0, 0x1680, 0x2028, 0x2029, 0x202F, 0x205F, 0x3000]

def trim (t : List Char) : List Char :=
  ((t.dropWhile isAsciiBlank).reverse.dropWhile isAsciiBlank).reverse

end Text
end Hpack

namespace Hpack

-- The largest integer that is written or accepted: all values of 32 bits.
def maxValue : Nat := 0xFFFFFFFF

-- Five groups of seven bits carry 35 bits, which is enough for any 32-bit value after the mask of
-- its prefix has been subtracted.
def maxContinuation : Nat := 5

-- The prefix octet and its continuation.
def maxLength : Nat := 1 + maxContinuation

end Hpack

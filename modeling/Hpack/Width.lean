import Hpack.Numeral

namespace Hpack

-- The number of low bits of the first octet which an integer starts in. The bits above them belong
-- to whoever uses the integer.
@[ext]
structure Width where
  bits : Nat
  one_le : 1 ≤ bits
  le_eight : bits ≤ 8
  deriving DecidableEq

namespace Width

-- The value of a prefix whose bits are all set.
def mask (w : Width) : Nat :=
  (1 <<< w.bits) - 1

-- What a caller hands over as a width. Requests come in from untyped formats, so it need not be a
-- number at all, or may hold nothing. Of anything else, only the text matters that stands for it.
inductive Candidate
  | whole (n : Int)
  | truth (b : Bool)
  | absent
  | empty
  | other (written : String)
  deriving DecidableEq

namespace Candidate

-- Only whole numbers are widths, even where a truth value could pass for one.
def width? : Candidate → Option Width
  | whole n =>
    if h : 1 ≤ n ∧ n ≤ 8 then some ⟨n.toNat, by omega, by omega⟩ else none
  | _ => none

def written : Candidate → String
  | whole n       => Numeral.decimal n
  | truth true    => "True"
  | truth false   => "False"
  | absent        => "None"
  | empty         => "[]"
  | other written => written

end Candidate
end Width
end Hpack
